import Hypermedia.Route.Scope

/-!
# Routes

A route is a pattern of addresses with the methods that it serves and the scope that says
what an address means. A pattern is a list of pieces: text, or an id that is bound to a
parameter. A table holds routes in order; of routes with patterns that are spelled alike
the last one is found.
-/

namespace Hypermedia

/-- The methods that routes serve. -/
inductive Method where
  | get
  | post
  | put
  | delete
  deriving DecidableEq, Repr

namespace Method

/-- The name of a method. -/
def name : Method → String
  | .get => "GET"
  | .post => "POST"
  | .put => "PUT"
  | .delete => "DELETE"

end Method

/-- What a route leads to. -/
inductive RouteKind where
  | root
  | collection
  | entity
  | singular
  deriving DecidableEq, Repr

namespace RouteKind

/-- The name of a kind. -/
def name : RouteKind → String
  | .root => "root"
  | .collection => "collection"
  | .entity => "entity"
  | .singular => "singular"

end RouteKind

/-- A piece of a pattern: text as it is, or a slash and an id. -/
inductive PatternPiece where
  | text (s : String)
  | id (param : String)
  deriving DecidableEq, Repr

namespace PatternPiece

/-- A piece as it is spelled. -/
def spelling : PatternPiece → String
  | .text s => s
  | .id param => s!"/<rid:{param}>"

/-- The parameter of an id. -/
def param? : PatternPiece → Option String
  | .text _ => none
  | .id param => some param

end PatternPiece

/-- A pattern of addresses. -/
abbrev Pattern := List PatternPiece

namespace Pattern

/-- A pattern as it is spelled. -/
def spelling (pattern : Pattern) : String := String.join (pattern.map PatternPiece.spelling)

/-- The parameters of a pattern in order. -/
def params (pattern : Pattern) : List String := pattern.filterMap PatternPiece.param?

end Pattern

/-- A pattern of addresses with its methods and its scope; the root has no scope. -/
structure Route where
  pattern : Pattern
  methods : List Method
  kind : RouteKind
  scope : Option Scope

namespace Route

/-- The pattern as it is spelled. -/
def spelling (r : Route) : String := Pattern.spelling r.pattern

/-- The name under which the route is served. -/
def endpoint (r : Route) : String := s!"hyperrest.{r.kind.name}:{r.spelling}"

/-- The patterns without and with the suffix of a format. -/
def spellings (r : Route) : List String := [r.spelling, s!"{r.spelling}.<fmt:format>"]

end Route

/-- Routes in order. -/
structure RouteTable where
  routes : List Route

namespace RouteTable

/-- The route whose pattern is spelled so; of several the last. -/
def find? (t : RouteTable) (spelling : String) : Option Route :=
  t.routes.reverse.find? fun r => r.spelling == spelling

/-- The different patterns in the order of their first occurrence. -/
def spellings (t : RouteTable) : List String := (t.routes.map Route.spelling).eraseDups

/-- Is there a route whose pattern is spelled so? -/
def contains (t : RouteTable) (spelling : String) : Bool := (t.find? spelling).isSome

end RouteTable

end Hypermedia
