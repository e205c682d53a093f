import Hypermedia.Route.Table

/-!
# The tree of routes of a registry

Every type gives a route for all its entities and one for each of them, and below an entity
there are routes for its readable relationships and its finders (`Tree.routes`). A step of
the way down is an edge: the name of a type with that of a relationship to many or of a
finder. No edge is taken twice on a way, and no way has more edges than the depth allows,
so the tree is finite for every registry. Nothing below a finder is written.
-/

namespace Hypermedia.Tree

/-- A step from an entity to a collection, by the names of the type and of the
descriptor. -/
abbrev Edge := String × String

/-- A relationship or a finder. -/
inductive Branch where
  | relationship (r : Relationship)
  | finder (f : Finder)

namespace Branch

/-- The name of a branch. -/
def name : Branch → String
  | .relationship r => r.name
  | .finder f => f.name

/-- What a branch leads to. -/
def target : Branch → Target
  | .relationship r => r.target
  | .finder f => f.target

end Branch

/-- What leads on from an entity of the type: its readable relationships, then its
finders. -/
def branches (t : ResourceType) : List Branch :=
  t.readableRelationships.map .relationship ++ t.finders.map .finder

/-- The parameter for an id of the type below other parameters. A name that is taken gets
the depth after it. -/
def paramName (t : ResourceType) (params : List String) (depth : Nat) : String :=
  let name := s!"{t.singularName}_id"
  if params.contains name then s!"{name}{depth}" else name

/-- The routes of a collection and of its members. -/
def ownRoutes (scope : Scope) (pattern : Pattern) : List Route :=
  let isMutable := scope.isMutable
  [{ pattern, methods := if isMutable then [.get, .post] else [.get], kind := .collection
     scope := some scope },
   { pattern := pattern ++ [.id scope.idParam]
     methods := if isMutable then [.get, .put, .delete] else [.get]
     kind := .entity, scope := some scope }]

/-- The scope that a branch to many leads to. -/
def childScope (scope : Scope) (target : ResourceType) (idParam : String) : Branch → Scope
  | .relationship r => .relationship target idParam scope.readOnly scope r
  | .finder f => .finder target idParam scope f

/-- The routes of a collection, of its members and of everything below them, with at most
`steps` more edges on a way. `params` holds the parameters of the pattern and `visited`
the edges on the way to it. -/
def below (r : Registry) :
    (steps : Nat) → Scope → Pattern → List String → List Edge → List Route
  | steps, scope, pattern, params, visited =>
    let entityPattern := pattern ++ [.id scope.idParam]
    let params := params ++ [scope.idParam]
    let branch (b : Branch) : List Route :=
      let inner := entityPattern ++ [.text s!"/{b.name}"]
      match r.resolve b.target, b with
      | .error _, _ => []
      | .ok target, b =>
        let deeper : List Route :=
          let edge := (scope.memberType.name, b.name)
          if visited.contains edge then []
          else
            match steps with
            | 0 => []
            | steps + 1 =>
              let idParam := paramName target params (visited.length + 1)
              below r steps (childScope scope target idParam b) inner params (visited ++ [edge])
        match b with
        | .relationship rel =>
          if rel.isMany then deeper
          else
            [{ pattern := inner, methods := [.get], kind := .singular
               scope := some (.singular target scope.idParam scope rel) }]
        | .finder _ => deeper
    ownRoutes scope pattern ++ (branches scope.memberType).flatMap branch

/-- The routes that begin with all entities of a type. -/
def ofType (r : Registry) (maxDepth : Int) (t : ResourceType) : List Route :=
  let scope := Scope.type t (paramName t [] 0)
  below r maxDepth.toNat scope [.text s!"/{t.pluralName}"] [] []

/-- Do all relationships and finders lead to registered types? -/
def checkTargets (r : Registry) : Except Fault Unit :=
  r.types.forM fun t =>
    (t.relationships.map Relationship.target ++ t.finders.map Finder.target).forM fun target =>
      (r.resolve target).map fun _ => ()

/-- The routes of a registry below a root, with at most so many edges on a way. -/
def routes (r : Registry) (maxDepth : Int) (rootPath : String) : Except Fault RouteTable := do
  checkTargets r
  let root : Route :=
    { pattern := [.text rootPath], methods := [.get], kind := .root, scope := none }
  pure ⟨root :: r.types.flatMap (ofType r maxDepth)⟩

end Hypermedia.Tree
