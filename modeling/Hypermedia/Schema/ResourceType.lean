import Hypermedia.Naming
import Hypermedia.Schema.Descriptor

/-!
# Resource types

A resource type has a name, descriptors and possibly the class of its records. Its plural
name is the address of all its entities; it is the one that is given, or the plural of the
singular name, which not every name has (`ResourceType.pluralName?`).
-/

namespace Hypermedia

/-- A kind of things that clients can see. -/
structure ResourceType where
  name : String
  properties : List Property := []
  relationships : List Relationship := []
  finders : List Finder := []
  isAbstract : Bool := false
  supertype : Option String := none
  model : Option RecordClass := none
  validators : List Validator := []
  plural : Option String := none
  deriving Inhabited

namespace ResourceType

/-- The name of one thing of the type. -/
def singularName (t : ResourceType) : String := Naming.singularName t.name

/-- The name of several things of the type. An empty plural counts as none. -/
def pluralName? (t : ResourceType) : Option String :=
  match t.plural with
  | some "" | none => Naming.pluralName? t.singularName
  | some p => some p

/-- The plural name of a type that has one. -/
def pluralName (t : ResourceType) : String := t.pluralName?.getD ""

/-- The address of all entities of the type. -/
def uri (t : ResourceType) (root : String) (ext : Option String) : String :=
  s!"{root}/{t.pluralName}{Naming.formatSuffix ext}"

/-- The properties that clients may read. -/
def readableProperties (t : ResourceType) : List Property :=
  t.properties.filter Property.isReadable

/-- The properties that clients may write. -/
def writableProperties (t : ResourceType) : List Property :=
  t.properties.filter Property.isWritable

/-- The relationships that clients may follow. -/
def readableRelationships (t : ResourceType) : List Relationship :=
  t.relationships.filter Relationship.isReadable

/-- The relationships that clients may change. -/
def writableRelationships (t : ResourceType) : List Relationship :=
  t.relationships.filter Relationship.isWritable

/-- The type with the descriptors of a supertype before and among its own. -/
def inherit (t super : ResourceType) : ResourceType :=
  { t with
    supertype := some super.name
    properties := merge super.properties t.properties
    relationships := merge super.relationships t.relationships
    finders := merge super.finders t.finders
    validators := super.validators ++ t.validators.filter fun v => !super.validators.contains v }

/-- Are two types described alike? The classes of their records and the rules of their
finders do not count. -/
def sameDescription (a b : ResourceType) : Bool :=
  a.name == b.name && a.properties == b.properties && a.relationships == b.relationships &&
    a.finders.map (fun f => (f.name, f.target)) == b.finders.map (fun f => (f.name, f.target)) &&
    a.isAbstract == b.isAbstract && a.supertype == b.supertype &&
    a.validators == b.validators && a.plural == b.plural

end ResourceType

end Hypermedia
