import Hypermedia.Fields
import Hypermedia.Schema.ResourceType
import Hypermedia.Validation.Rule

/-!
# Storages

A storage keeps typed records. `Storage` is what reading needs of it, `Store` what writing
needs; both say only what an operation gives, so anything can be a storage. The operations
run in a monad `m`, where they may fail and may have effects.
-/

namespace Hypermedia

/-- What a relationship of a record leads to. -/
inductive Related (R : Type) where
  | nothing
  | one (record : R)
  | many (records : List R)
  deriving DecidableEq, Repr

namespace Related

variable {R : Type}

/-- Is there nothing at the end of a relationship? A list is something. -/
def isNothing : Related R → Bool
  | .nothing => true
  | _ => false

/-- The records of a relationship that leads to many. -/
def asMany : Related R → Except Fault (List R)
  | .many rs => .ok rs
  | .nothing => .error (.badType "'NoneType' object is not iterable")
  | .one _ => .error (.badType "'object' object is not iterable")

/-- The record, if any, of a relationship that leads to one. -/
def asOne : Related R → Except Fault (Option R)
  | .one r => .ok (some r)
  | .nothing => .ok none
  | .many _ => .error (.noAttribute "'list' object has no attribute 'id'")

end Related

/-- What a field of a record is given. -/
inductive Given (R : Type) where
  | value (v : Value)
  | record (r : R)
  | records (rs : List R)

/-- Reading records of a type `R`. -/
structure Storage (m : Type → Type) (R : Type) where
  /-- The class of a record. -/
  classOf : R → Option RecordClass
  /-- All records of a type and its subtypes. -/
  query : ResourceType → m (List R)
  /-- The record of an id. -/
  get : ResourceType → Value → m (Option R)
  /-- The id of a record; nothing until it is stored. -/
  identity : R → m Value
  /-- The value of a property; nothing where there is none. -/
  value : R → String → m Value
  /-- What a relationship leads to. -/
  related : R → Relationship → m (Related R)
  /-- The records of an attribute, for a finder to start from. -/
  source : R → String → m (List R)

/-- Writing records of a type `R`. -/
structure Store (m : Type → Type) (R : Type) extends Storage m R where
  /-- A new record that holds what its fields are given, not stored yet. -/
  build : ResourceType → List (String × Given R) → m R
  /-- Give something to fields of a record. -/
  assign : R → List (String × Given R) → m Unit
  /-- Add a record to a relationship of its owner. -/
  attach : R → Relationship → R → m Unit
  /-- Store the record and everything that changed. -/
  persist : R → m Unit
  /-- Discard everything that is not stored. -/
  rollback : m Unit
  /-- Remove the record; false if that is refused. -/
  destroy : R → m Bool
  /-- Of the records that were only read no others are needed from here on, apart from those
  that these hold. -/
  hold : List R → m Unit

namespace FinderRule

variable {m : Type → Type} [Monad m] [MonadExceptOf Fault m] {R : Type}

open MonadExcept (ofExcept)

/-- Does a record satisfy the condition of a finder? -/
def accepts (s : Storage m R) (filter : Option Condition) (r : R) : m Bool :=
  match filter with
  | none => pure true
  | some c => do
    let v ← s.value r c.field
    ofExcept (c.test.holds v c.operand)

/-- The records that a rule finds from a record, in its order. -/
def find (s : Storage m R) (rule : FinderRule) (r : R) : m (List R) :=
  match rule with
  | .plain => throw (.badType "'object' object is not iterable")
  | .select source filter isReversed => do
    let rs ←
      match source with
      | none => pure [r]
      | some name => s.source r name
    let rs ← rs.filterM (accepts s filter)
    pure (if isReversed then rs.reverse else rs)

end FinderRule

end Hypermedia
