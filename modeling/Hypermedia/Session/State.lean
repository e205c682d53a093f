import Hypermedia.Relational.Model

/-!
# Sessions

A session is the work on a database between two commits. It knows some records by number:
new ones and ones that are stored. What a record was given is kept beside the database
until it is written there: values of columns, and what its links lead to (`LinkState`). A
session has the committed database and the one with the changes that were already written.

The actions of a session (`Act`) may fail; a failed action keeps what it changed before.
-/

namespace Hypermedia

/-- A record of a session: its number and the name of its model. -/
structure Ref where
  number : Nat
  model : String
  deriving DecidableEq, Repr, Inhabited

/-- What a session knows of a link of a record. -/
inductive LinkState where
  /-- The other records were not read; some were added and some removed since. -/
  | unread (added removed : List Ref)
  /-- The other records, and those before the first change if these are known. -/
  | read (before : Option (List Ref)) (now : List Ref)
  deriving Inhabited

namespace LinkState

/-- The records that were linked before the first change. -/
def earlier : LinkState → List Ref
  | .unread _ _ => []
  | .read before _ => before.getD []

/-- The records that are linked now, as far as they were read. -/
def current : LinkState → List Ref
  | .unread _ _ => []
  | .read _ now => now

/-- The records that were linked since the last writing. -/
def gained (s : LinkState) : List Ref := s.current.filter fun r => !s.earlier.contains r

/-- The records that are no longer linked since the last writing. -/
def dropped (s : LinkState) : List Ref := s.earlier.filter fun r => !s.current.contains r

/-- All records that a writing has to look at: gained, kept and dropped ones. -/
def involved (s : LinkState) : List Ref :=
  s.gained ++ s.current.filter (s.earlier.contains ·) ++ s.dropped

/-- Was the link changed since the last writing? -/
def isChanged : LinkState → Bool
  | .unread added removed => !added.isEmpty || !removed.isEmpty
  | .read before now => before != some now

/-- The state after the changes are written. -/
def written : LinkState → LinkState
  | .unread _ _ => .unread [] []
  | .read _ now => .read (some now) now

end LinkState

/-- The life of a record in a session. -/
inductive Phase where
  /-- Not to be stored. -/
  | fresh
  /-- To be stored; the order in which records were added counts. -/
  | pending (order : Nat)
  /-- Stored; new since the last commit or not. -/
  | stored (isNew : Bool)
  /-- Deleted since the last commit. -/
  | deleted
  /-- Deleted. -/
  | gone
  deriving DecidableEq, Repr, Inhabited

/-- A record of a session with what it was given. -/
structure Entry where
  ref : Ref
  model : Model
  phase : Phase
  key : List Value
  values : Row
  links : List (String × LinkState)
  /-- Is the record to be deleted? -/
  isDoomed : Bool
  /-- The links from other records that the record was taken out of. -/
  lost : List Link
  deriving Inhabited

namespace Entry

/-- Is the record stored? -/
def isStored (e : Entry) : Bool :=
  match e.phase with
  | .stored _ => true
  | _ => false

/-- Does the session write the record? -/
def isMember (e : Entry) : Bool :=
  match e.phase with
  | .stored _ | .pending _ => true
  | _ => false

/-- Is the record to be stored for the first time? -/
def isPending (e : Entry) : Bool :=
  match e.phase with
  | .pending _ => true
  | _ => false

/-- What was given to a link; a record that was never stored is linked to nothing at first. -/
def linkState (e : Entry) (name : String) : LinkState :=
  match Fields.get? name e.links with
  | some s => s
  | none => if e.isStored || e.phase = .gone then .unread [] [] else .read (some []) []

/-- Give something to a link. -/
def setLink (e : Entry) (name : String) (s : LinkState) : Entry :=
  { e with links := (e.links.filter fun l => l.1 != name) ++ [(name, s)] }

/-- Give a value to a column. -/
def setValue (e : Entry) (name : String) (v : Value) : Entry :=
  { e with values := (e.values.filter fun c => c.1 != name) ++ [(name, v)] }

/-- The value that a column was given. -/
def given? (e : Entry) (name : String) : Option Value :=
  Fields.get? name e.values

/-- Was anything of the record changed since the last writing? -/
def isChanged (e : Entry) : Bool :=
  !e.values.isEmpty || e.links.any fun l => l.2.isChanged

end Entry

/-- The work on a database since the last commit. -/
structure Session where
  committed : Database
  db : Database
  entries : List Entry
  /-- The number of the next record. -/
  next : Nat
  /-- Did a writing fail since the last commit? -/
  failed : Bool
  /-- Are changes written before something is read? -/
  eager : Bool
  deriving Inhabited

namespace Session

/-- A session at its beginning. -/
def start (db : Database) : Session :=
  { committed := db, db, entries := [], next := 0, failed := false, eager := false }

/-- The record of a reference. -/
def known? (s : Session) (r : Ref) : Option Entry := s.entries.find? fun e => e.ref == r

/-- Change a record. -/
def modify (s : Session) (r : Ref) (f : Entry → Entry) : Session :=
  { s with entries := s.entries.map fun e => if e.ref == r then f e else e }

/-- The stored record of a key that the session knows. -/
def identified? (s : Session) (rootTable : String) (key : List Value) : Option Entry :=
  s.entries.find? fun e => e.isStored && e.model.rootTable == rootTable && e.key == key

/-- Know a further record. -/
def receive (s : Session) (model : Model) (phase : Phase) (key : List Value) : Session × Ref :=
  let ref : Ref := { number := s.next, model := model.name }
  let entry : Entry :=
    { ref, model, phase, key, values := [], links := [], isDoomed := false, lost := [] }
  ({ s with entries := s.entries ++ [entry], next := s.next + 1 }, ref)

/-- The records to which the links of some records lead, as far as these were read. -/
def heldBy (s : Session) (rs : List Ref) : List Ref :=
  (s.entries.filter fun e => rs.contains e.ref).flatMap fun e =>
    e.links.flatMap fun l => l.2.current

/-- Some records with those that they hold by links that were read, one after the other;
`rounds` bounds how far the links are followed. -/
def withHeld (s : Session) : (rounds : Nat) → List Ref → List Ref
  | 0, rs => rs
  | rounds + 1, rs => withHeld s rounds (rs ++ (s.heldBy rs).filter fun r => !rs.contains r)

/-- Forget the stored records apart from these and those that they hold. -/
def keep (s : Session) (rs : List Ref) : Session :=
  let held := s.withHeld s.entries.length rs
  { s with entries := s.entries.filter fun e => !e.isStored || held.contains e.ref }

/-- Discard what was not committed. Records that are not stored are left as they are, but
are no longer to be stored. -/
def rollback (s : Session) : Session :=
  { s with
    db := s.committed
    failed := false
    entries := s.entries.map fun e =>
      match e.phase with
      | .stored false | .deleted =>
        { e with phase := .stored false, values := [], links := [], isDoomed := false, lost := [] }
      | .stored true | .pending _ =>
        { e with phase := .fresh, key := [], isDoomed := false }
      | .fresh | .gone => e }

end Session

/-- An action of a session. -/
abbrev Act := ExceptT Fault (StateM Session)

namespace Act

/-- The outcome of a pure computation. -/
def ofExcept {α : Type} (x : Except Fault α) : Act α := ExceptT.mk (pure x)

/-- The record of a reference. -/
def entry (r : Ref) : Act Entry := do
  match (← get).known? r with
  | some e => pure e
  | none => throw (.store .notStored)

/-- Change a record. -/
def modifyEntry (r : Ref) (f : Entry → Entry) : Act Unit := modify fun s => s.modify r f

/-- The database, unless a writing has failed. -/
def database : Act Database := do
  let s ← get
  if s.failed then throw (.store .needsRollback) else pure s.db

/-- A table of the database. -/
def table (name : String) : Act Table := do
  let db ← database
  ofExcept (db.table name)

end Act

end Hypermedia
