import Hypermedia.Session.Linking

/-!
# Writing the changes of a session

`Act.flush` writes all changes to the database: records of a table that others refer to
come first, within a tree those above come first, and deletions come last. A column that
refers to another record is filled in when that record has its key. If the changes of one
writing would have to come before each other, or the database refuses one of them, nothing
of what was not committed stays (`Session.rollback`).

`Act.commit` writes the changes and makes them last.
-/

namespace Hypermedia

namespace Catalog

/-- The root tables, those that others refer to first; `fuel` bounds the number of rounds. -/
def ordered (c : Catalog) : (fuel : Nat) → (done todo : List String) → List String
  | 0, done, todo => done ++ todo
  | fuel + 1, done, todo =>
    let models (root : String) : List Model := c.models.filter fun m => m.rootTable == root
    let tables (root : String) : List String := (models root).flatMap Model.tables
    let isReady (root : String) : Bool :=
      todo.all fun other => other == root ||
        (models root).all fun m => m.columns.all fun x =>
          match x.column.refersTo with
          | some (table, _) => !(tables other).contains table
          | none => true
    match todo.filter isReady with
    | [] => done ++ todo
    | ready => ordered c fuel (done ++ ready) (todo.filter fun t => !ready.contains t)

/-- The root tables in the order in which their records are written. -/
def rootTables (c : Catalog) : List String :=
  let roots := (c.models.map Model.rootTable).eraseDups
  c.ordered roots.length [] roots

end Catalog

namespace Act

variable (c : Catalog)

/-! ## What is to be written -/

/-- Let a stored record be deleted, with the records that are deleted with it; `fuel` bounds
how far the links are followed. -/
def doom : (fuel : Nat) → Ref → Act Unit
  | 0, _ => pure ()
  | fuel + 1, r => do
    let e ← entry r
    if e.isDoomed || !e.isStored then pure ()
    else do
      (e.model.links.filter Link.cascades).forM fun l => do
        let rs ← linked c r l
        rs.forM (doom fuel)
      modifyEntry r fun e => { e with isDoomed := true }

/-- Let a stored record be deleted with the next writing. -/
def delete (r : Ref) : Act Unit := do
  let e ← entry r
  if e.isStored then
    let t ← Act.table e.model.rootTable
    doom c (t.rows.length + (← get).entries.length + 1) r
  else throw (.store .notStored)

/-- Let the records be deleted whose owner let them go. -/
def doomOrphans : Act Unit := do
  let orphans := (← get).entries.filter fun e => e.isStored && e.lost.any Link.owns
  orphans.forM fun e => delete c e.ref

/-- The links of a record from which other records refer to it. -/
def memberLinks (e : Entry) : List (Link × String) :=
  e.model.links.filterMap fun l =>
    match l.kind with
    | .members column => some (l, column)
    | _ => none

/-- Is the record known to which a column refers? -/
def knowsReferred (r : Ref) (l : Link) (column : String) : Act Bool := do
  let e ← entry r
  match e.model.column? column, c.model? l.target with
  | some x, some target => do
    let v ← columnValue r x
    pure ((← get).identified? target.rootTable [v]).isSome
  | _, _ => pure false

/-- Read a link. A record to which a column refers is not read for that. -/
def readKnown (r : Ref) (l : Link) : Act Unit := do
  let isKnown ←
    match l.kind with
    | .reference column => knowsReferred c r l column
    | _ => pure true
  if isKnown then
    let _ ← readLink c r l

/-- Read the links of the records that are to be deleted. -/
def readDoomed : Act Unit := do
  let doomed := (← get).entries.filter Entry.isDoomed
  doomed.forM fun e => e.model.links.forM (readKnown c e.ref)

/-- Is a record written because of its own changes? -/
def isDirty (e : Entry) : Bool := e.isMember && !e.isDoomed && (e.isPending || e.isChanged)

/-- The records whose columns depend on the links of a record. -/
def dependents (e : Entry) : List Ref :=
  (memberLinks e).flatMap fun (l, _) =>
    let state := e.linkState l.name
    if e.isDoomed then (if l.cascades then [] else state.involved)
    else if isDirty e then state.gained ++ state.dropped
    else []

/-- The records that are written or deleted. -/
def involvedRecords (s : Session) : List Entry :=
  let touched := s.entries.flatMap dependents
  s.entries.filter fun e =>
    e.isMember && (e.isDoomed || isDirty e || touched.contains e.ref)

/-! ## The order of writing -/

/-- Which of two records of a table has to be written before the other, because it stands
above it in a tree. -/
def edges (es : List Entry) : List (Ref × Ref) :=
  let there (root : String) (r : Ref) : Bool :=
    es.any fun e => e.ref == r && e.model.rootTable == root
  es.flatMap fun e =>
    e.model.links.flatMap fun l =>
      let others := (e.linkState l.name).involved.filter (there e.model.rootTable)
      match l.kind with
      | .reference _ => if e.isDoomed then [] else others.map fun r => (r, e.ref)
      | .members _ =>
        if e.isDoomed then (others.filter (· == e.ref)).map fun r => (r, e.ref)
        else others.map fun r => (e.ref, r)
      | .pairs _ _ _ => []

/-- Records in groups, each of which only depends on those before it; `fuel` bounds the
number of groups. -/
def levels (edges : List (Ref × Ref)) : (fuel : Nat) → List Ref → Except Fault (List (List Ref))
  | _, [] => .ok []
  | 0, _ => .error (.store .circular)
  | fuel + 1, todo =>
    let isFree (r : Ref) : Bool := !edges.any fun e => e.2 == r && todo.contains e.1
    match todo.filter isFree with
    | [] => .error (.store .circular)
    | free => do
      let rest ← levels edges fuel (todo.filter fun r => !free.contains r)
      pure (free :: rest)

/-! ## Columns that refer to other records -/

/-- Fill in a column that refers to another record. A column of the key cannot become
empty. -/
def refer (r : Ref) (column : String) (v : Value) : Act Unit := do
  let e ← entry r
  match e.model.column? column with
  | none => pure ()
  | some x => do
    let old ← columnValue r x
    if x.column.isKey && v.isNull && !old.isNull then throw (.store .blankKey)
    else modifyEntry r fun e => e.setValue column v

/-- Empty the columns of a record that refer to records which are deleted. -/
def unrefer (es : List Entry) (r : Ref) : Act Unit :=
  (es.filter Entry.isDoomed).forM fun owner =>
    (memberLinks owner).forM fun (l, column) =>
      let isLinked := !l.cascades && (owner.linkState l.name).involved.contains r
      let isElsewhere := es.any fun e =>
        !e.isDoomed && (memberLinks e).any fun (l', column') =>
          column' == column && l'.target == l.target && (e.linkState l'.name).gained.contains r
      if isLinked && !isElsewhere then refer r column .null else pure ()

/-- Fill in the columns of a record that refer to records to whose lists it was added. -/
def referToOwners (es : List Entry) (r : Ref) : Act Unit := do
  let e ← entry r
  (es.filter isDirty).forM fun owner =>
    (memberLinks owner).forM fun (l, column) => do
      let state := owner.linkState l.name
      if state.gained.contains r then refer r column (keyValue (← entry owner.ref)) else pure ()
      if state.dropped.contains r && e.lost.contains l && !l.owns then refer r column .null
      else pure ()

/-- Fill in the columns of a record that its own links fill. -/
def referToOthers (r : Ref) : Act Unit := do
  let e ← entry r
  e.model.links.forM fun l =>
    match l.kind, Fields.get? l.name e.links with
    | .reference column, some state =>
      if e.isPending || state.isChanged then
        match state.current with
        | [] => refer r column .null
        | other :: _ => do
          let o ← entry other
          if o.isMember then refer r column (keyValue o) else pure ()
      else pure ()
    | _, _ => pure ()

/-! ## Rows -/

/-- The cells of a new row of a record. Nothing counts as not given. -/
def newCells (e : Entry) (table : String) : Row :=
  let own := (e.model.columns.filter fun x => x.table == table).filterMap fun x =>
    match e.given? x.column.name with
    | some v =>
      if v.isNull && x.column.type ≠ .json then
        x.column.default.map fun v => (x.column.name, v)
      else some (x.column.name, v)
    | none => x.column.default.map fun v => (x.column.name, v)
  if table == e.model.rootTable then own else (e.model.keyNames.zip e.key) ++ own

/-- The changed cells of a row of a record. -/
def changedCells (e : Entry) (table : String) (row : Row) : Row :=
  (e.model.columns.filter fun x => x.table == table).filterMap fun x =>
    match e.given? x.column.name with
    | some v => if v == Row.get row x.column.name then none else some (x.column.name, v)
    | none => none

/-- Insert the row of a new record into a table. -/
def insertRow (table : String) (r : Ref) : Act Unit := do
  let e ← entry r
  let db ← database
  let (db, row) ← ofExcept (db.insert table (newCells e table))
  modify fun s => { s with db }
  if table == e.model.rootTable then
    modifyEntry r fun e => { e with key := e.model.keyNames.map (Row.get row) }
  else pure ()

/-- Write the changed cells of a stored record to a table. -/
def updateRow (table : String) (r : Ref) : Act Unit := do
  let e ← entry r
  match ← row? table e.key with
  | none => if e.isChanged then throw (.store .staleRow) else pure ()
  | some row =>
    let cells := changedCells e table row
    if cells.isEmpty then pure ()
    else do
      let db ← database
      let db ← ofExcept (db.update table e.key cells)
      modify fun s =>
        { s with db }.modify r fun e =>
          { e with key := e.model.keyNames.map fun k => (e.given? k).getD (Row.get row k) }

/-- Delete the row of a table with the given key. -/
def deleteRow (key : List Value) (table : String) : Act Unit := do
  let db ← database
  let db ← ofExcept (db.delete table key)
  modify fun s => { s with db }

/-- Delete the rows of a record; its values are kept with it. -/
def deleteRows (r : Ref) : Act Unit := do
  let e ← entry r
  let values ← e.model.columns.mapM fun x => do
    let row ← row? x.table e.key
    pure (x.column.name, (row.map fun row => Row.get row x.column.name).getD .null)
  e.model.tables.reverse.forM (deleteRow e.key)
  modifyEntry r fun e => { e with phase := .deleted, values, isDoomed := false }

/-- Write the rows of a table: first those of stored records, then the new ones. -/
def saveRows (stored new : List Entry) (table : String) : Act Unit := do
  let isRow (e : Entry) : Bool := e.model.tables.contains table
  (stored.filter isRow).forM fun e => updateRow table e.ref
  (new.filter isRow).forM fun e => insertRow table e.ref

/-- Fill in the columns of a record that refer to other records. -/
def referToAll (es : List Entry) (r : Ref) : Act Unit := do
  unrefer es r
  referToOwners es r
  referToOthers r

/-- Write the records of a level: first those that are stored, in the order of their keys,
then the new ones, in the order in which they were added. -/
def saveLevel (es : List Entry) (level : List Ref) : Act Unit := do
  level.forM (referToAll es)
  let members := es.filter fun e => level.contains e.ref && !e.isDoomed
  let stored := (members.filter Entry.isStored).mergeSort fun a b =>
    !Value.keysLess b.key a.key
  let order (e : Entry) : Nat :=
    match e.phase with
    | .pending n => n
    | _ => 0
  let new := (members.filter Entry.isPending).mergeSort fun a b => order a ≤ order b
  let tables := (members.flatMap fun e => e.model.tables).eraseDups
  tables.forM (saveRows stored new)

/-- Write the records of a root table. -/
def saveTable (es : List Entry) (root : String) : Act Unit := do
  let own := es.filter fun e => e.model.rootTable == root
  let groups ← ofExcept (levels (edges own) own.length (own.map Entry.ref))
  groups.forM (saveLevel es)

/-! ## Tables of pairs -/

/-- The rows of a pair of records. -/
def pairCells (own other : String) (e x : Entry) : Row :=
  [(own, keyValue e), (other, keyValue x)]

/-- Delete the row of a pair. -/
def deletePair (table : String) (cells : Row) : Act Unit := do
  let t ← Act.table table
  let rows := t.rows.filter fun row => !cells.all fun x => Row.get row x.1 == x.2
  modify fun s => { s with db := s.db.replace { t with rows } }

/-- Insert the row of a pair, if the other record is one of the session. -/
def insertPair (table : String) (cells : Entry → Row) (r : Ref) : Act Unit := do
  let x ← entry r
  if x.isMember then
    let db ← database
    let (db, _) ← ofExcept (db.insert table (cells x))
    modify fun s => { s with db }
  else pure ()

/-- A pair of records in a table of pairs, as it is written from one side. -/
abbrev PairMark := String × Ref × Ref

/-- Write the pairs of a link of a record, apart from those that were written from the
other side. What was written is given back. -/
def savePairs (done : List PairMark) (e : Entry) (l : Link) : Act (List PairMark) := do
  match l.kind with
  | .pairs table own other => do
    let state := e.linkState l.name
    let isNew (r : Ref) : Bool := !done.contains (table, r, e.ref)
    let self ← entry e.ref
    let (gained, dropped) :=
      if e.isDoomed then ([], (state.current ++ state.dropped).eraseDups)
      else (state.gained.filter isNew, state.dropped.filter isNew)
    dropped.forM fun r => do
      deletePair table (pairCells own other self (← entry r))
    gained.forM (insertPair table (pairCells own other self))
    pure ((gained ++ dropped).map fun r => (table, e.ref, r))
  | _ => pure []

/-- Write the pairs of a link of all records of a model. -/
def saveLinkPairs (es : List Entry) (m : Model) (done : List PairMark) (l : Link) :
    Act (List PairMark) := do
  let own := es.filter fun e => e.model.name == m.name && (e.isDoomed || isDirty e)
  let written ← own.mapM fun e => savePairs done e l
  pure (done ++ written.flatten)

/-- Write the pairs of all links, model by model. -/
def saveAllPairs (es : List Entry) : Act Unit := do
  let _ ← c.models.foldlM (fun done m => m.links.foldlM (saveLinkPairs es m) done) []

/-! ## Flush and commit -/

/-- A record after its changes were written. -/
def settled (e : Entry) : Entry :=
  let links := e.links.map fun l => (l.1, l.2.written)
  match e.phase with
  | .pending _ => { e with phase := .stored true, links, lost := [] }
  | .stored true => { e with links, lost := [] }
  | .stored false => { e with links, values := [], lost := [] }
  | .fresh | .deleted | .gone => e

/-- Delete the rows of the records of a root table that are to be deleted. -/
def deleteDoomed (es : List Entry) (root : String) : Act Unit :=
  (es.filter fun e => e.isDoomed && e.model.rootTable == root).forM fun e => deleteRows e.ref

/-- Write everything that changed. -/
def write : Act Unit := do
  doomOrphans c
  readDoomed c
  let es := involvedRecords (← get)
  c.rootTables.forM (saveTable es)
  saveAllPairs c es
  c.rootTables.reverse.forM (deleteDoomed es)
  modify fun s => { s with entries := s.entries.map settled }

/-- Is there anything to write? -/
def hasChanges (s : Session) : Bool :=
  s.entries.any fun e => e.isMember && (e.isPending || e.isDoomed || e.isChanged)

/-- Write everything that changed. If that fails everything that is not committed is
discarded, and the session has to be rolled back. -/
def flush : Act Unit := do
  let s ← get
  if !hasChanges s then pure ()
  else
    let _ ← database
    try write c
    catch f => do
      modify fun s => { s.rollback with failed := true }
      throw f

/-- A record after a commit. -/
def committed (e : Entry) : Entry :=
  match e.phase with
  | .stored _ => { e with phase := .stored false, values := [], links := [] }
  | .deleted => { e with phase := .gone }
  | .fresh | .pending _ | .gone => e

/-- Write everything that changed and make it last. -/
def commit : Act Unit := do
  flush c
  let _ ← database
  modify fun s => { s with committed := s.db, entries := s.entries.map committed }

/-- Discard everything that is not committed. -/
def rollback : Act Unit := modify Session.rollback

end Act

end Hypermedia
