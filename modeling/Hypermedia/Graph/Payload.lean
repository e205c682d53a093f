import Hypermedia.Graph.Entity

/-!
# Payloads

A payload gives something to the fields of a record: values to properties, and records to
relationships. A record is given by its id or described by an object of its own, from which
a new record is built; what is wrong with that one, or with an id that means nothing, is
noted under the name that the payload uses (`WritableGraph.mapPayload`).

Clients can only give something to writable fields. Everything else in a payload is
ignored, and so is what stands beside an id.
-/

namespace Hypermedia

/-- A resource graph whose storage can be written. -/
structure WritableGraph (m : Type → Type) (R : Type) where
  registry : Registry
  store : Store m R
  judge : String → Entity R → m Value

/-- What a payload gives to the fields of a record, and what is wrong with it. -/
structure Payload (R : Type) where
  given : List (String × Given R) := []
  errors : Errors := []

namespace Payload

variable {R : Type}

/-- Give something to a field. -/
def give (p : Payload R) (name : String) (x : Given R) : Payload R :=
  { p with given := Fields.put name x p.given }

/-- The fields of a description of a new record: an object without an id. -/
def description? : Value → Option (List (String × Value))
  | .object fields => if Fields.contains "id" fields then none else some fields
  | _ => none

/-- The id by which a value refers to a record. -/
def referredId : Value → Value
  | .object fields => (Fields.get? "id" fields).getD .null
  | v => v

/-- The name under which ids alone are given to a relationship. -/
def idsName (rel : Relationship) : String :=
  if rel.isMany then s!"{rel.name}_ids" else s!"{rel.name}_id"

/-- What a payload says about a relationship: the name that it uses, the value, and whether
the value may describe new records. -/
def about (rel : Relationship) (fields : List (String × Value)) :
    Option (String × Value × Bool) :=
  match Fields.get? rel.name fields with
  | some v => some (rel.name, v, true)
  | none => (Fields.get? (idsName rel) fields).map fun v => (idsName rel, v, false)

mutual

/-- The number of objects and lists that stand inside each other in a value. -/
def depth : Value → Nat
  | .list items => itemsDepth items + 1
  | .object fields => fieldsDepth fields + 1
  | _ => 0

/-- The depth of the deepest item. -/
def itemsDepth : List Value → Nat
  | [] => 0
  | v :: r => max (depth v) (itemsDepth r)

/-- The depth of the deepest field. -/
def fieldsDepth : List (String × Value) → Nat
  | [] => 0
  | (_, v) :: r => max (depth v) (fieldsDepth r)

end

end Payload

namespace WritableGraph

variable {m : Type → Type} [Monad m] [MonadExceptOf Fault m] {R : Type}

open MonadExcept (ofExcept)

/-- The graph for reading. -/
def graph (w : WritableGraph m R) : ResourceGraph m R :=
  { registry := w.registry, storage := w.store.toStorage, judge := w.judge }

variable (w : WritableGraph m R)

/-- The types of the payloads of records. -/
abbrev Mapping (m : Type → Type) (R : Type) : Type :=
  ResourceType → List (String × Value) → m (Payload R)

/-- What is wrong with a new record, apart from the relationship through which it is given
to its owner. -/
def newErrors (e : Entity R) (inverse : Option String) : m Errors := do
  let own ← e.errors w.graph .default
  let onCreation ← e.errors w.graph .create
  let es : Errors := Errors.merge [own, onCreation]
  pure (es.filter fun f => some f.1 != inverse)

/-- A new record of a description; `nested` maps the description. What is wrong with the
record is added to the errors of a field. -/
def describe (nested : Mapping m R) (target : ResourceType) (key : String)
    (inverse : Option String) (fields : List (String × Value)) (errors : Errors) :
    m (Option R × Errors) :=
  if target.isAbstract then
    pure (none, Errors.note key [s!"Cannot create an abstract {target.name}"] errors)
  else do
    let p ← nested target fields
    let r ← w.store.build target p.given
    let own ← w.newErrors (w.graph.entity r target) inverse
    let found : Errors := Errors.merge [p.errors, own]
    pure (some r, found.foldl (fun es f => Errors.note key f.2 es) errors)

/-- The record that a value refers to. -/
def refer (target : ResourceType) (key : String) (v : Value) (errors : Errors) :
    m (Option R × Errors) := do
  let id := Payload.referredId v
  match ← w.graph.lookup target id with
  | some e => pure (some e.record, errors)
  | none => pure (none, Errors.note key [s!"{target.name} {id.display} not found"] errors)

/-- The record that a value means: one that it refers to, or a new one if it may and does
describe one. -/
def resolve (nested : Mapping m R) (target : ResourceType) (key : String) (mayDescribe : Bool)
    (inverse : Option String) (v : Value) (errors : Errors) : m (Option R × Errors) :=
  match if mayDescribe then Payload.description? v else none with
  | some fields => w.describe nested target key inverse fields errors
  | none => w.refer target key v errors

/-- The records that values mean, without those that mean none. -/
def resolveAll (nested : Mapping m R) (target : ResourceType) (key : String)
    (mayDescribe : Bool) (inverse : Option String) :
    List Value → Errors → m (List R × Errors)
  | [], errors => pure ([], errors)
  | v :: vs, errors => do
    let (r, errors) ← w.resolve nested target key mayDescribe inverse v errors
    let (rs, errors) ← resolveAll nested target key mayDescribe inverse vs errors
    pure (r.toList ++ rs, errors)

/-- What a payload gives to a relationship, added to what it gives before. -/
def mapRelationship (nested : Mapping m R) (fields : List (String × Value)) (p : Payload R)
    (rel : Relationship) : m (Payload R) := do
  let target ← ofExcept (w.registry.resolve rel.target)
  match Payload.about rel fields with
  | none => pure p
  | some (key, v, mayDescribe) =>
    if rel.isMany then
      match v with
      | .list items => do
        let (rs, errors) ←
          w.resolveAll nested target key mayDescribe rel.inverse items p.errors
        pure ({ p with errors }.give rel.name (.records rs))
      | _ => pure { p with errors := Errors.note key [s!"{key} must be a list"] p.errors }
    else if v.isNull then pure (p.give rel.name (.value .null))
    else do
      let (r, errors) ← w.resolve nested target key mayDescribe rel.inverse v p.errors
      pure ({ p with errors }.give rel.name (r.elim (.value .null) .record))

/-- The values that a payload gives to properties. -/
def mapProperties (t : ResourceType) (fields : List (String × Value)) : Payload R :=
  t.writableProperties.foldl (fun p x =>
    match Fields.get? x.name fields with
    | some v => p.give x.name (.value v)
    | none => p) {}

/-- What a payload gives to a record of a type; `fuel` bounds how deep descriptions of new
records stand inside each other. -/
def mapFields : (fuel : Nat) → Mapping m R
  | 0, _, _ => pure {}
  | fuel + 1, t, fields =>
    t.writableRelationships.foldlM (w.mapRelationship (mapFields fuel) fields)
      (mapProperties t fields)

/-- What a payload gives to a record of a type. -/
def mapPayload : Mapping m R := fun t fields =>
  w.mapFields (Payload.fieldsDepth fields + 1) t fields

end WritableGraph

end Hypermedia
