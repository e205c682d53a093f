import Hypermedia.Graph.Entity

/-!
# Scopes

A scope says which collection or entity an address means: all entities of a type, or what a
relationship or a finder of the entity of another scope leads to. The ids in the address
are bound to the parameters of the scope and of those above it.
-/

namespace Hypermedia

/-- A way from a type to a collection or an entity. -/
inductive Scope where
  /-- All entities of a type. -/
  | type (type : ResourceType) (idParam : String)
  /-- What a relationship to many of an entity leads to. -/
  | relationship (type : ResourceType) (idParam : String) (readOnly : Bool) (parent : Scope)
      (relationship : Relationship)
  /-- What a finder of an entity finds. -/
  | finder (type : ResourceType) (idParam : String) (parent : Scope) (finder : Finder)
  /-- What a relationship to one of an entity leads to. -/
  | singular (type : ResourceType) (idParam : String) (parent : Scope)
      (relationship : Relationship)
  deriving Inhabited

namespace Scope

/-- The declared type of the members. -/
def memberType : Scope → ResourceType
  | .type t _ | .relationship t _ _ _ _ | .finder t _ _ _ | .singular t _ _ _ => t

/-- The parameter that holds the id of a member; of a relationship to one, that of its
owner. -/
def idParam : Scope → String
  | .type _ p | .relationship _ p _ _ _ | .finder _ p _ _ | .singular _ p _ _ => p

/-- Is nothing below the scope written? -/
def readOnly : Scope → Bool
  | .type _ _ => false
  | .relationship _ _ b _ _ => b
  | .finder _ _ _ _ | .singular _ _ _ _ => true

/-- The scope above. -/
def parent? : Scope → Option Scope
  | .type _ _ => none
  | .relationship _ _ _ s _ | .finder _ _ s _ | .singular _ _ s _ => some s

/-- The relationship or the finder of the last step. -/
def stepName? : Scope → Option String
  | .type _ _ => none
  | .relationship _ _ _ _ r | .singular _ _ _ r => some r.name
  | .finder _ _ _ f => some f.name

/-- The scope and those above it, from the last to the first. -/
def chain : Scope → List Scope
  | .type t p => [.type t p]
  | .relationship t p b s r => .relationship t p b s r :: s.chain
  | .finder t p s f => .finder t p s f :: s.chain
  | .singular t p s r => .singular t p s r :: s.chain

/-- May clients create, change and delete members? -/
def isMutable (s : Scope) : Bool := !(s.readOnly || s.memberType.isAbstract)

/-- The ids of an address, by the names of the parameters. -/
abbrev Params := List (String × Value)

/-- The id that is bound to a parameter. -/
def idOf (params : Params) (name : String) : Except Fault Value :=
  match params.find? fun p => p.1 == name with
  | some p => .ok p.2
  | none => .error (.noKey name)

variable {m : Type → Type} [Monad m] [MonadExceptOf Fault m] {R : Type}

open MonadExcept (ofExcept)

/-- Something that has to be there. -/
def required {α : Type} : Option α → m α
  | some a => pure a
  | none => throw .notFound

/-- The member of a collection that a parameter names. -/
def member (g : ResourceGraph m R) (params : Params) (idParam : String) (c : Collection R) :
    m (Entity R) := do
  let id ← ofExcept (idOf params idParam)
  let e ← c.get g id
  required e

/-- The entity that the scope means. -/
def entity (g : ResourceGraph m R) (params : Params) : Scope → m (Entity R)
  | .type t p => do
    let id ← ofExcept (idOf params p)
    let e ← g.lookup t id
    required e
  | .relationship _ p _ parent rel => do
    let owner ← parent.entity g params
    let c ← g.relatedMany owner rel
    member g params p c
  | .finder _ p parent f => do
    let owner ← parent.entity g params
    let c ← g.found owner f
    member g params p c
  | .singular _ _ parent rel => do
    let owner ← parent.entity g params
    let e ← g.relatedOne owner rel
    required e

/-- The collection that the scope means; a relationship to one means none. -/
def collection (g : ResourceGraph m R) (params : Params) : Scope → m (Collection R)
  | .type t _ => g.collection t
  | .relationship _ _ _ parent rel => do
    let owner ← parent.entity g params
    g.relatedMany owner rel
  | .finder _ _ parent f => do
    let owner ← parent.entity g params
    g.found owner f
  | .singular _ _ _ _ => throw .notImplemented

end Scope

end Hypermedia
