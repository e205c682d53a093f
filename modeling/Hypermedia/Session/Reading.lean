import Hypermedia.Session.State

/-!
# Reading in a session

Reading gives records of the session: a row that the session knows already is the record
that it knows. All records of a model come in the order of their keys (`Act.all`); a link
that was not read yet is read from the database, and what was added and removed meanwhile
counts (`Act.linked`).
-/

namespace Hypermedia

namespace Value

/-- The order of the values of keys. -/
def keyLess : Value → Value → Bool
  | .int a, .int b => a < b
  | .text a, .text b => a < b
  | .date a, .date b => a.ordinal < b.ordinal
  | a, b => a.display < b.display

/-- The order of keys: the first difference counts. -/
def keysLess : List Value → List Value → Bool
  | a :: as, b :: bs => keyLess a b || (a == b && keysLess as bs)
  | [], _ :: _ => true
  | _, [] => false

end Value

namespace Catalog

/-- The model of a row of a model's tables: where rows are discriminated, that of the
identity in the row. -/
def modelOfRow (c : Catalog) (m : Model) (row : Row) : Except Fault Model :=
  match m.discriminator with
  | none => .ok m
  | some column =>
    let found := c.models.find? fun x =>
      x.rootTable == m.rootTable && x.identity.map Value.text == some (Row.get row column)
    match found with
    | some x => .ok x
    | none =>
      .error (.application s!"No such polymorphic_identity: {(Row.get row column).literal}")

end Catalog

namespace Act

variable (c : Catalog)

/-- The row of a key in a table. -/
def row? (table : String) (key : List Value) : Act (Option Row) := do
  let t ← Act.table table
  pure (t.find? key)

/-- Is a row of the root table one of the model? -/
def isRowOf (m : Model) (row : Row) : Act Bool := do
  let key := m.keyNames.map (Row.get row)
  let isKind :=
    match m.isSingle, m.discriminator with
    | true, some column =>
      (c.descendants m.name).any fun x =>
        x.identity.map Value.text == some (Row.get row column)
    | _, _ => true
  if isKind then
    m.tables.tail.allM fun name => do
      let r ← row? name key
      pure r.isSome
  else pure false

/-- The record of a row. -/
def recordOf (m : Model) (row : Row) : Act Ref := do
  let s ← get
  let key := m.keyNames.map (Row.get row)
  match s.identified? m.rootTable key with
  | some e => pure e.ref
  | none =>
    let x ← ofExcept (c.modelOfRow m row)
    let (s, ref) := s.receive x (.stored false) key
    set s
    pure ref

/-- The records of some rows in the order of their keys. -/
def recordsOf (m : Model) (rows : List Row) : Act (List Ref) := do
  let key (r : Row) : List Value := m.keyNames.map (Row.get r)
  let rows := rows.mergeSort fun a b => !Value.keysLess (key b) (key a)
  rows.mapM (recordOf c m)

/-- All records of a model. -/
def all (m : Model) : Act (List Ref) := do
  let t ← Act.table m.rootTable
  let rows ← t.rows.filterM (isRowOf c m)
  recordsOf c m rows

/-- A part of a key is only looked up if it is in the range of the store and has bytes. -/
def checkRange : Value → Act Unit
  | .int n => do
    let _ ← ofExcept (storeInteger n)
  | .torn t => do
    let _ ← ofExcept (unencodable t)
  | _ => pure ()

/-- The record of a row with a key, if it is one of the model. -/
def fetch (m : Model) (key : List Value) : Act (Option Ref) := do
  key.forM checkRange
  match ← row? m.rootTable key with
  | none => pure none
  | some row => do
    let isOne ← isRowOf c m row
    if isOne then some <$> recordOf c m row else pure none

/-- The record of a key. -/
def find (m : Model) (key : List Value) : Act (Option Ref) := do
  match (← get).identified? m.rootTable key with
  | some e => pure (if e.model.extends_ m.name then some e.ref else none)
  | none => fetch c m key

/-- The value of a column in the database. -/
def storedValue (e : Entry) (x : MappedColumn) : Act Value := do
  match ← row? x.table e.key with
  | some row => pure (Row.get row x.column.name)
  | none => throw (.store .staleRow)

/-- The value of a column of a record: what it was given, or what the database has. -/
def columnValue (r : Ref) (x : MappedColumn) : Act Value := do
  let e ← entry r
  match e.given? x.column.name with
  | some v => pure v
  | none => if e.isStored then storedValue e x else pure .null

/-- The value of the only column of a record's key. -/
def keyValue (e : Entry) : Value := e.key.headD .null

/-- The record that a column of a record refers to. -/
def referred (r : Ref) (l : Link) (column : String) : Act (List Ref) := do
  let e ← entry r
  match e.model.column? column, c.model? l.target with
  | some x, some target =>
    let v ← columnValue r x
    if v.isNull then pure []
    else do
      let found ← find c target [v]
      pure found.toList
  | _, _ => pure []

/-- The records that the database links to a stored record. -/
def storedLinks (e : Entry) (l : Link) : Act (List Ref) := do
  match c.model? l.target with
  | none => pure []
  | some target =>
    match l.kind with
    | .reference column => referred c e.ref l column
    | .members column => do
      let t ← Act.table target.rootTable
      let rows ← (t.rows.filter fun row => Row.get row column == keyValue e).filterM
        (isRowOf c target)
      let rs ← recordsOf c target rows
      pure (if l.isList then rs else rs.take 1)
    | .pairs table own other => do
      let pairs ← Act.table table
      let keys := (pairs.rows.filter fun row => Row.get row own == keyValue e).map
        (Row.get · other)
      let t ← Act.table target.rootTable
      let rows ← (t.rows.filter fun row => keys.any fun k => t.keyOf row == [k]).filterM
        (isRowOf c target)
      recordsOf c target rows

/-- Read a link of a record, as it was before the changes and as it is. -/
def readLink (r : Ref) (l : Link) : Act LinkState := do
  let e ← entry r
  match e.linkState l.name with
  | .read before now => pure (.read before now)
  | .unread added removed => do
    if e.phase = .gone then throw (.store .detached)
    let stored ← storedLinks c e l
    let now := (stored ++ added).filter fun x => !removed.contains x
    let state := LinkState.read (some stored) now
    modifyEntry r fun e => e.setLink l.name state
    pure state

/-- The records that a link of a record leads to. -/
def linked (r : Ref) (l : Link) : Act (List Ref) := do
  let state ← readLink c r l
  pure state.current

end Act

end Hypermedia
