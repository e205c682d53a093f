import Hypermedia.Graph.Entity

/-!
# Representations

A representation is what clients see of an entity or of a collection: a tree whose leaves
are values and the addresses of other representations. A link is an address alone, for a
collection with the number of its members; the full form of an entity has a field for each
readable property and relationship and for each finder. An entity with errors has no full
form, only that of its errors (`Representation.ofErrors`).

Embedding puts the full form of the related entities in the place of links to them, one
level deep.
-/

namespace Hypermedia

/-- What clients see. -/
inductive Representation where
  | value (v : Value)
  | address (uri : String)
  | list (items : List Representation)
  | object (fields : List (String × Representation))
  deriving Inhabited

namespace Representation

mutual

/-- A representation as a value. -/
def toValue : Representation → Value
  | .value v => v
  | .address uri => .text uri
  | .list items => .list (itemValues items)
  | .object fields => .object (fieldValues fields)

/-- The values of the items of a list. -/
def itemValues : List Representation → List Value
  | [] => []
  | x :: r => x.toValue :: itemValues r

/-- The values of the fields of an object. -/
def fieldValues : List (String × Representation) → List (String × Value)
  | [] => []
  | (k, x) :: r => (k, x.toValue) :: fieldValues r

end

/-- The representation of errors. -/
def ofErrors (es : Errors) : Representation :=
  .object [("error", .value (.bool true)), ("errors", .value es.toValue)]

/-- The representation of a fault that no field is to blame for. -/
def ofMessage (message : String) : Representation := ofErrors [("general", [message])]

end Representation

/-- How addresses are written: what comes before and the format that comes after. -/
structure Renderer where
  root : String := ""
  ext : Option String := none
  deriving Inhabited

namespace Renderer

variable {m : Type → Type} [Monad m] [MonadExceptOf Fault m] {R : Type}
variable (w : Renderer) (g : ResourceGraph m R)

/-- A link to an entity. -/
def entityLink (e : Entity R) : m Representation := do
  let uri ← e.uri g w.root w.ext
  pure (.object [("uri", .address uri)])

/-- A link to a collection. -/
def collectionLink (c : Collection R) : m Representation := do
  let uri ← c.uri g w.root w.ext
  pure (.object [("uri", .address uri), ("count", .value (.int c.count))])

/-- The form of a collection with these forms of its members. -/
def listing (member : Entity R → m Representation) (c : Collection R) : m Representation := do
  let items ← c.entities.mapM member
  let uri ← c.uri g w.root w.ext
  pure (.object
    [("uri", .address uri), ("count", .value (.int c.count)), ("items", .list items)])

/-- The full form of an entity, with these forms of what it leads to. -/
def full (one : Entity R → m Representation) (many : Collection R → m Representation)
    (e : Entity R) : m Representation := do
  let uri ← e.uri g w.root w.ext
  let values ← e.type.readableProperties.mapM fun p => do
    let v ← g.storage.value e.record p.name
    pure (p.name, Representation.value v)
  let related ← e.type.readableRelationships.mapM fun rel => do
    if rel.isMany then
      let c ← g.relatedMany e rel
      let x ← many c
      pure (rel.name, x)
    else
      match ← g.relatedOne e rel with
      | none => pure (rel.name, Representation.value .null)
      | some other => do
        let x ← one other
        pure (rel.name, x)
  let found ← e.type.finders.mapM fun f => do
    let c ← g.found e f
    let x ← many c
    pure (f.name, x)
  pure (.object (Fields.putAll [("uri", .address uri)] (values ++ related ++ found)))

/-- Everything that is wrong with an entity in the default context and in another. -/
def gateErrors (e : Entity R) (c : Context) : m Errors := do
  let es ← e.errors g .default
  if c = .default then pure es
  else do
    let more ← e.errors g c
    pure (Errors.merge [es, more])

/-- The errors of an entity if there are any, else its full form. -/
def gated (one : Entity R → m Representation) (many : Collection R → m Representation)
    (e : Entity R) (c : Context) : m Representation := do
  let es ← gateErrors g e c
  if es.isEmpty then w.full g one many e else pure (Representation.ofErrors es)

/-- An entity with links to what it leads to. -/
def linked (e : Entity R) (c : Context) : m Representation :=
  w.gated g (w.entityLink g) (w.collectionLink g) e c

/-- An entity with what it leads to embedded. -/
def embedded (e : Entity R) (c : Context) : m Representation :=
  w.gated g (fun other => w.linked g other .default)
    (w.listing g fun member => w.linked g member .default) e c

/-- An entity. -/
def entity (e : Entity R) (c : Context) (embed : Bool) : m Representation :=
  if embed then w.embedded g e c else w.linked g e c

/-- A collection, with its members embedded or with links to them. -/
def collection (c : Collection R) (embed : Bool) : m Representation :=
  if embed then w.listing g (fun member => w.linked g member .default) c
  else w.listing g (w.entityLink g) c

/-- The root of the api: links to the entities of all types. -/
def apiRoot (r : Registry) (path : String) : Representation :=
  let resources := r.types.map fun t => (t.pluralName, Representation.address (t.uri w.root w.ext))
  .object
    [("uri", .address s!"{w.root}{path}{Naming.formatSuffix w.ext}"),
      ("resources", .object (Fields.putAll [] resources))]

end Renderer

namespace Registry

/-- A text that may be missing, as a value. -/
def optionalText (s : Option String) : Value := s.elim .null .text

/-- What a target is called: the name of the type that it means. -/
def targetName (r : Registry) (t : Target) : Except Fault Value := do
  let t ← r.resolve t
  pure (.text t.name)

/-- The description of a type. -/
def describeType (r : Registry) (t : ResourceType) : Except Fault Value := do
  let relationships ← t.readableRelationships.mapM fun rel => do
    let target ← r.targetName rel.target
    pure (Value.object
      [("name", .text rel.name), ("cardinality", .text rel.cardinality.name),
        ("target", target), ("inverse", optionalText rel.inverse)])
  let finders ← t.finders.mapM fun f => do
    let target ← r.targetName f.target
    pure (Value.object [("name", .text f.name), ("target", target)])
  let properties := t.readableProperties.map fun p =>
    Value.object
      [("name", .text p.name), ("writable", .bool p.isWritable), ("required", .bool p.required)]
  pure (.object
    [("name", .text t.name), ("abstract", .bool t.isAbstract),
      ("supertype", optionalText t.supertype), ("properties", .list properties),
      ("relationships", .list relationships), ("finders", .list finders)])

/-- The description of all types, by their plural names. -/
def describe (r : Registry) : Except Fault Value := do
  let fields ← r.types.mapM fun t => do
    let d ← r.describeType t
    pure (t.pluralName, d)
  pure (.object fields)

end Registry

end Hypermedia
