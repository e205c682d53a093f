import Hypermedia.Graph.Storage
import Hypermedia.Schema.Registry

/-!
# Entities and collections

A resource graph joins the registered types with a storage. An entity is a record together
with its most specific type; a collection is a list of entities that stands below a type or
below an entity, and that decides its address (`Entity.uri`, `Collection.uri`).
`Entity.errors` collects everything that is wrong with an entity in a context.
-/

namespace Hypermedia

/-- A record with its type. The errors of the payload that it was made from belong to it. -/
structure Entity (R : Type) where
  type : ResourceType
  record : R
  payloadErrors : Errors := []

/-- What a collection belongs to. -/
inductive CollectionBase (R : Type) where
  | type (type : ResourceType)
  | owner (entity : Entity R)

/-- Entities in order. The relationship is the one that leads from the owner to them, if it
is a relationship that does. -/
structure Collection (R : Type) where
  base : CollectionBase R
  name : String
  entities : List (Entity R)
  type : ResourceType
  relationship : Option Relationship := none

/-- The registered types, the records, and what the names of rules mean for an entity. -/
structure ResourceGraph (m : Type → Type) (R : Type) where
  registry : Registry
  storage : Storage m R
  judge : String → Entity R → m Value

variable {m : Type → Type} [Monad m] [MonadExceptOf Fault m] {R : Type}

open MonadExcept (ofExcept)

/-- The verdict of a rule of a rule book on an entity. -/
def RuleBook.judge (book : RuleBook) (s : Storage m R) (name : String) (e : Entity R) :
    m Value := do
  let rule ← ofExcept (book.get name)
  let v ← s.value e.record rule.field
  ofExcept (rule.verdict v)

namespace ResourceGraph

variable (g : ResourceGraph m R)

/-- The most specific type of a record, or the declared one. -/
def typeOf? (r : R) (declared : Option ResourceType) : Option ResourceType :=
  match (g.storage.classOf r).bind g.registry.typeOf? with
  | some t => some t
  | none => declared

/-- A record as an entity of its most specific type, or of the declared one. -/
def entity (r : R) (declared : ResourceType) : Entity R :=
  { type := (g.typeOf? r (some declared)).getD declared, record := r }

/-- All entities of a type. -/
def collection (t : ResourceType) : m (Collection R) := do
  let rs ← g.storage.query t
  pure { base := .type t, name := t.pluralName, entities := rs.map (g.entity · t), type := t }

/-- The entity of an id. -/
def lookup (t : ResourceType) (id : Value) : m (Option (Entity R)) := do
  let r ← g.storage.get t id
  pure (r.map (g.entity · t))

/-- The collection that a relationship to many leads to. -/
def relatedMany (e : Entity R) (rel : Relationship) : m (Collection R) := do
  let target ← ofExcept (g.registry.resolve rel.target)
  let related ← g.storage.related e.record rel
  let rs ← ofExcept related.asMany
  pure
    { base := .owner e, name := rel.name, entities := rs.map (g.entity · target), type := target
      relationship := some rel }

/-- The entity that a relationship to one leads to. -/
def relatedOne (e : Entity R) (rel : Relationship) : m (Option (Entity R)) := do
  let target ← ofExcept (g.registry.resolve rel.target)
  let related ← g.storage.related e.record rel
  let r ← ofExcept related.asOne
  pure (r.map (g.entity · target))

/-- The collection that a finder finds. -/
def found (e : Entity R) (f : Finder) : m (Collection R) := do
  let target ← ofExcept (g.registry.resolve f.target)
  let rs ← f.rule.find g.storage e.record
  pure
    { base := .owner e, name := f.name, entities := rs.map (g.entity · target), type := target }

end ResourceGraph

namespace Entity

variable (g : ResourceGraph m R)

/-- The id as it stands in an address. -/
def idText (e : Entity R) : m String := do
  let id ← g.storage.identity e.record
  pure id.display

/-- The address of an entity. -/
def uri (e : Entity R) (root : String) (ext : Option String) : m String := do
  let id ← e.idText g
  pure s!"{e.type.uri root none}/{id}{Naming.formatSuffix ext}"

/-- How an entity is shown to a developer. -/
def label (e : Entity R) : m String := do
  let id ← e.idText g
  pure s!"<Entity {e.type.name} {id}>"

/-- The required properties and relationships that have nothing. -/
def blanks (e : Entity R) : m (List String) := do
  let ps ← (e.type.properties.filter Property.required).filterM fun p => do
    let v ← g.storage.value e.record p.name
    pure v.isNull
  let rs ← (e.type.relationships.filter Relationship.required).filterM fun r => do
    let x ← g.storage.related e.record r
    pure x.isNothing
  pure (ps.map Property.name ++ rs.map Relationship.name)

/-- What is wrong with an entity apart from the rules of its type. -/
def ownErrors (e : Entity R) : m (List Errors) := do
  let blanks ← e.blanks g
  let isAbstract : List Errors :=
    if e.type.isAbstract then [[("type", ["Cannot save an abstract entity type"])]] else []
  pure (e.payloadErrors :: isAbstract ++
    [blanks.map fun name => (name, [s!"{name} must not be blank"])])

/-- What the rules of a context say. -/
def verdicts (e : Entity R) (c : Context) : m (List Errors) :=
  (e.type.validators.filter (·.applies c)).mapM fun v => do
    let verdict ← g.judge v.rule e
    ofExcept (Errors.ofVerdict verdict)

/-- Everything that is wrong with an entity in a context. -/
def errors (e : Entity R) (c : Context) : m Errors := do
  let own ← if c = .default then e.ownErrors g else pure []
  let ruled ← e.verdicts g c
  pure (Errors.merge (own ++ ruled))

/-- Is nothing wrong in any of the contexts? -/
def validIn (e : Entity R) : List Context → m Bool
  | [] => pure true
  | c :: r => do
    let es ← e.errors g c
    if es.isEmpty then validIn e r else pure false

/-- Is nothing wrong in any of the contexts? Without contexts the default one counts. -/
def valid (e : Entity R) (contexts : List Context) : m Bool :=
  e.validIn g (if contexts.isEmpty then [.default] else contexts)

end Entity

namespace Collection

variable (g : ResourceGraph m R)

/-- The number of entities. -/
def count (c : Collection R) : Nat := c.entities.length

/-- The address of a collection. -/
def uri (c : Collection R) (root : String) (ext : Option String) : m String :=
  match c.base with
  | .type t => pure (t.uri root ext)
  | .owner e => do
    let u ← e.uri g root none
    pure s!"{u}/{c.name}{Naming.formatSuffix ext}"

/-- The first of some entities whose id reads like an id. -/
def find (id : String) : List (Entity R) → m (Option (Entity R))
  | [] => pure none
  | e :: r => do
    let t ← e.idText g
    if t == id then pure (some e) else find id r

/-- The member of an id; ids are compared as they read. -/
def get (c : Collection R) (id : Value) : m (Option (Entity R)) := find g id.display c.entities

/-- How a collection is shown to a developer. -/
def label (c : Collection R) : String := s!"<Collection {c.name} ({c.count})>"

end Collection

end Hypermedia
