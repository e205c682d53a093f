import Hypermedia.Graph.Storage
import Hypermedia.Session.Saving

/-!
# Sessions as stores

The records of a session are the records of a store whose types are described by models
(`Catalog.store`). The id of a record is the key of its row; several columns are joined by
underscores. A record that is built gets the identity of its model where rows are
discriminated.

Storing a record commits everything that changed. If the database refuses that because of
a constraint the changes are discarded and there is a conflict.
-/

namespace Hypermedia

namespace Act

variable (c : Catalog)

/-- The model of the records of a type. -/
def modelOf (t : ResourceType) : Act Model :=
  match t.model.bind c.ofClass? with
  | some m => pure m
  | none => throw (.badType "'NoneType' object is not callable")

/-- Write the changes before something is read, if the session does so. -/
def settle : Act Unit := do
  let s ← get
  if s.eager then flush c else pure ()

/-- Write the changes before a link is read, if the session does so and has not read it. -/
def settleLink (r : Ref) (l : Link) : Act Unit := do
  let e ← entry r
  match e.linkState l.name with
  | .unread _ _ => settle c
  | .read _ _ => pure ()

/-! ## Ids -/

/-- The parts of a list between the marks `sep`; only the first ones separate. -/
def keyTexts {α : Type} [BEq α] (sep : α) : (separators : Nat) → List α → List (List α)
  | _, [] => [[]]
  | 0, s => [s]
  | n + 1, x :: r =>
    if x == sep then [] :: keyTexts sep n r
    else
      match keyTexts sep (n + 1) r with
      | w :: ws => (x :: w) :: ws
      | [] => [[x]]

/-- The parts of an id between underscores, for so many columns. -/
def keyParts (columns : Nat) (id : Value) : List Value :=
  if columns ≤ 1 then [id]
  else
    match id with
    | .torn t => (keyTexts '_'.toNat (columns - 1) t.points).map .ofPoints
    | id => (keyTexts '_' (columns - 1) id.display.toList).map fun s => .text (String.ofList s)

/-- The values of columns that the parts of an id mean. An unacceptable part means none. -/
def keyValues : List (Column × Value) → Except Fault (Option (List Value))
  | [] => .ok (some [])
  | (x, v) :: r =>
    match x.type.parse c.hasRoom x.name v with
    | .ok v => (keyValues r).map fun vs => vs.map (v :: ·)
    | .error (.invalid _) => .ok none
    | .error f => .error f

/-- The key that an id means, if it can be one. -/
def keyOf? (m : Model) (id : Value) : Except Fault (Option (List Value)) :=
  let parts := keyParts m.keyColumns.length id
  if parts.length = m.keyColumns.length then
    (keyValues c (m.keyColumns.zip parts)).map fun key =>
      key.bind fun vs => if vs == [.null] then none else some vs
  else .ok none

/-- The id of a record: nothing until it has a row. -/
def identity (r : Ref) : Act Value := do
  let e ← entry r
  match e.key with
  | [] => pure .null
  | [v] => pure v
  | vs => pure (.text ("_".intercalate (vs.map Value.display)))

/-! ## Reading -/

/-- All records of a type. -/
def query (t : ResourceType) : Act (List Ref) := do
  let m ← modelOf c t
  settle c
  all c m

/-- The record of an id. -/
def lookup (t : ResourceType) (id : Value) : Act (Option Ref) := do
  let m ← modelOf c t
  match ← ofExcept (keyOf? c m id) with
  | none => pure none
  | some key => do
    let known := ((← get).identified? m.rootTable key).isSome
    if known then pure () else settle c
    find c m key

/-- A record as a value that is not shown. -/
def shadow (r : Ref) : Value := .foreign r.number s!"<{r.model}>"

/-- What a field holds; nothing where there is no such field. -/
def fieldValue (r : Ref) (name : String) : Act Value := do
  let e ← entry r
  match e.model.column? name, e.model.link? name with
  | some x, _ => columnValue r x
  | none, some l => do
    settleLink c r l
    let rs ← linked c r l
    if l.isList then pure (.list (rs.map shadow))
    else pure ((rs.head?.map shadow).getD .null)
  | none, none => pure .null

/-- What a link of a record leads to. -/
def relatedBy (r : Ref) (l : Link) : Act (Related Ref) := do
  settleLink c r l
  let rs ← linked c r l
  if l.isList then pure (.many rs) else pure ((rs.head?.map Related.one).getD .nothing)

/-- What the link of a name leads to. -/
def relatedIn (r : Ref) (name : String) : Act (Related Ref) := do
  let e ← entry r
  match e.model.link? name with
  | some l => relatedBy c r l
  | none => throw (.noAttribute s!"'{r.model}' object has no attribute '{name}'")

/-- What a relationship leads to. Nothing at the end of one to many is an empty list. -/
def related (r : Ref) (rel : Relationship) : Act (Related Ref) := do
  let x ← relatedIn c r rel.name
  if rel.isMany then
    match x with
    | .nothing => pure (.many [])
    | x => do
      let rs ← ofExcept x.asMany
      pure (.many rs)
  else pure x

/-- The records that a link leads to, for a finder to start from. -/
def source (r : Ref) (name : String) : Act (List Ref) := do
  match ← relatedIn c r name with
  | .nothing => pure []
  | x => ofExcept x.asMany

/-! ## Writing -/

/-- A value where a record has to be given. -/
def notARecord (v : Value) : Fault :=
  .noAttribute s!"a record was expected, not {Conversion.kindName v}"

/-- Give something to a link to many. -/
def assignMany (r : Ref) (l : Link) : Given Ref → Act Unit
  | .records rs => do
    settleLink c r l
    setMany c r l rs
  | .value (.list []) | .value (.text "") | .value (.object []) => do
    settleLink c r l
    setMany c r l []
  | .value (.list (v :: _)) => throw (notARecord v)
  | .value (.text s) => throw (notARecord (.text s))
  | .value (.torn t) => throw (notARecord (.torn t))
  | .value (.object (f :: _)) => throw (notARecord (.text f.1))
  | .value v => throw (.badType s!"'{Conversion.kindName v}' object is not iterable")
  | .record x => throw (.badType s!"'{x.model}' object is not iterable")

/-- Give something to a link to one. -/
def assignOne (r : Ref) (l : Link) : Given Ref → Act Unit
  | .record x => setOne c r l (some x)
  | .value .null => setOne c r l none
  | .value v => throw (notARecord v)
  | .records _ => throw (notARecord (.list []))

/-- The value that something given stands for in a column. -/
def givenValue : Given Ref → Value
  | .value v => v
  | .record r => shadow r
  | .records rs => .list (rs.map shadow)

/-- Give something to the field of a name. Other names are ignored. -/
def assignField (r : Ref) (name : String) (x : Given Ref) : Act Unit := do
  let e ← entry r
  match e.model.link? name, e.model.column? name with
  | some l, _ => if l.isList then assignMany c r l x else assignOne c r l x
  | none, some column => do
    let v ← ofExcept (column.column.type.parse c.hasRoom name (givenValue x))
    modifyEntry r fun e => e.setValue name v
  | none, none => pure ()

/-- Give something to fields of a record, one after the other. -/
def assign (r : Ref) (fields : List (String × Given Ref)) : Act Unit :=
  fields.forM fun f => assignField c r f.1 f.2

/-- A new record that is not to be stored yet. -/
def build (t : ResourceType) (fields : List (String × Given Ref)) : Act Ref := do
  let m ← modelOf c t
  let (s, r) := (← get).receive m .fresh []
  set s
  match m.discriminator, m.identity with
  | some column, some identity => modifyEntry r fun e => e.setValue column (.text identity)
  | _, _ => pure ()
  assign c r fields
  pure r

/-- Add a record to a link: to a list, or in the place of what is there. -/
def addLinked (owner : Ref) (l : Link) (r : Ref) : Act Unit :=
  if l.isList then do
    settleLink c owner l
    addTo c owner l r
  else setOne c owner l (some r)

/-- Add a record to a relationship of its owner, by way of the inverse if there is one. -/
def attach (owner : Ref) (rel : Relationship) (r : Ref) : Act Unit :=
  match rel.inverse with
  | some name => do
    let e ← entry r
    match e.model.link? name with
    | some back => addLinked c r back owner
    | none => throw (.noKey name)
  | none => do
    let e ← entry owner
    match e.model.link? rel.name with
    | some l =>
      if l.isList then addLinked c owner l r
      else throw (.noAttribute s!"'{l.target}' object has no attribute 'append'")
    | none => throw (.noAttribute s!"'{owner.model}' object has no attribute '{rel.name}'")

/-- Store a record with everything that changed. -/
def persist (r : Ref) : Act Unit := do
  add r
  try commit c
  catch
    | .store (.constraint text) => do
      rollback
      throw (.conflict text)
    | .store .blankKey => throw (.store .blankKey)
    | .store f => do
      rollback
      throw (.failed f.text)
    | f => throw f

/-- Remove a record. A constraint refuses that. -/
def destroy (r : Ref) : Act Bool := do
  delete c r
  try
    commit c
    pure true
  catch
    | .store (.constraint _) => do
      rollback
      pure false
    | f => throw f

end Act

/-- The store of the records of a session. -/
def Catalog.store (c : Catalog) : Store Act Ref where
  classOf r := (c.model? r.model).map Model.recordClass
  query := Act.query c
  get := Act.lookup c
  identity := Act.identity
  value := Act.fieldValue c
  related := Act.related c
  source := Act.source c
  build := Act.build c
  assign := Act.assign c
  attach := Act.attach c
  persist := Act.persist c
  rollback := Act.rollback
  destroy := Act.destroy c
  hold rs := modify fun s => s.keep rs

end Hypermedia
