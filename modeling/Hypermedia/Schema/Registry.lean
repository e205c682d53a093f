import Hypermedia.Fault
import Hypermedia.Schema.ResourceType

/-!
# The registry of resource types

Types are registered one after the other (`Registry.register`). A name and a plural name
can be taken only once, and the type that another one extends has to be there before it.
`Registry.typeOf?` is the most specific type of a class of records: that of the nearest
class of its lineage that is the model of a type, of several types the last.
-/

namespace Hypermedia

/-- The registered types in the order of their registration. -/
structure Registry where
  types : List ResourceType
  deriving Inhabited

namespace Registry

/-- No types. -/
def empty : Registry := ⟨[]⟩

/-- The type of a name. -/
def get? (r : Registry) (name : String) : Option ResourceType :=
  r.types.find? fun t => t.name == name

/-- Is there a type of the name? -/
def contains (r : Registry) (name : String) : Bool := (r.get? name).isSome

/-- The last type whose records have the class of a number. -/
def ofModel? (r : Registry) (number : Nat) : Option ResourceType :=
  r.types.reverse.find? fun t => (t.model.bind RecordClass.number?) == some number

/-- The most specific type of a class of records. -/
def typeOf? (r : Registry) (c : RecordClass) : Option ResourceType :=
  c.lineage.findSome? r.ofModel?

/-- The type that a target means. -/
def resolve (r : Registry) : Target → Except Fault ResourceType
  | .named name =>
    match r.get? name with
    | some t => .ok t
    | none => .error (.schema (.unknownTarget name))
  | .model c =>
    match r.typeOf? c with
    | some t => .ok t
    | none => .error (.schema (.unknownTarget c.name))

/-- Is the plural name of the new type different from those of the types? A type without a
plural name cannot be compared. -/
def checkPlural (new : ResourceType) : List ResourceType → Except Fault Unit
  | [] => .ok ()
  | old :: r =>
    match old.pluralName?, new.pluralName? with
    | some p, some q =>
      if p == q then .error (.schema (.samePlural new.name old.name p)) else checkPlural new r
    | _, _ => .error .noPlural

/-- The type as it is registered: with what it inherits. -/
def prepare (r : Registry) (t : ResourceType) : Except Fault ResourceType :=
  if r.contains t.name then .error (.schema (.duplicateName t.name))
  else do
    let t ←
      match t.supertype with
      | none => pure t
      | some name => do
        let super ← r.resolve (.named name)
        pure (t.inherit super)
    checkPlural t r.types
    pure t

/-- Register a type. A first type that turns out to have no plural name stays registered. -/
def register (r : Registry) (t : ResourceType) : Registry × Except Fault ResourceType :=
  match r.prepare t with
  | .error f => (r, .error f)
  | .ok t =>
    (⟨r.types ++ [t]⟩, if t.pluralName?.isSome then .ok t else .error .noPlural)

end Registry

end Hypermedia
