import Hypermedia.Column
import Hypermedia.Route.Address
import Hypermedia.Route.Tree
import Hypermedia.Settings
import Hypermedia.Text.Quoted

/-!
# Services

A service exposes a registry: it has a place for every route and one for the description of
the types, each without the suffix of a format and with one (`Service.expose`). The options
that shape the places are read when the service is made, the others with each request.
-/

namespace Hypermedia

/-- What serves the addresses of a place. -/
inductive Endpoint where
  | route (r : Route)
  /-- The description of the types. -/
  | schema
  deriving Inhabited

/-- An api that can be served. -/
structure Service where
  registry : Registry
  rules : RuleBook
  settings : Settings
  detail : Detail
  /-- What every address begins with. -/
  mount : String
  /-- The origins from which pages may read the answers, if any besides its own. -/
  origin : Option String
  routes : RouteTable
  places : List (Place Endpoint)
  /-- What the application refuses every request with, if it does. -/
  refusal : Option String := none

namespace Service

/-- A path that an option sets. -/
structure PathOption where
  value : Value

namespace PathOption

/-- The path in what is derived from it. -/
def text (p : PathOption) : String := p.value.display

/-- The path alone; nothing where nothing is set. -/
def alone (p : PathOption) : String := if p.value.truthy then p.text else ""

end PathOption

/-- A text without a second slash after a slash. -/
def mergeSlashes : List Char → List Char
  | '/' :: '/' :: r => '/' :: mergeSlashes r
  | c :: r => c :: mergeSlashes r
  | [] => []

/-- A pattern below the mount. -/
def mounted (mount : String) (pattern : Pattern) : Pattern :=
  match pattern with
  | .text t :: r => .text (String.ofList (mergeSlashes (mount ++ t).toList)) :: r
  | r => .text mount :: r

/-- Patterns begin with a slash. -/
def checkSlash (spelling : String) : Except Fault Unit :=
  if spelling.toList.head? == some '/' then .ok ()
  else .error (.badValue s!"URL rule {Text.quoted spelling} must start with a slash.")

/-- The places of a pattern, which is spelled otherwise when it stands alone. -/
def placesOf (mount : String) (alone suffixed : Pattern) (methods : List Method)
    (target : Endpoint) : Except Fault (List (Place Endpoint)) := do
  checkSlash (mount ++ Pattern.spelling alone)
  checkSlash (mount ++ Pattern.spelling suffixed)
  pure
    [{ pattern := mounted mount alone, hasSuffix := false, methods, target },
     { pattern := mounted mount suffixed, hasSuffix := true, methods, target }]

/-- How what serves a route is called. -/
def routeLabel (r : Route) : String :=
  match r.scope with
  | none => "Root_API"
  | some s => s!"{s.memberType.name}_{r.kind.name}_API"

/-- The places of some routes, after the routes before them. No two routes have one
endpoint. -/
def routePlaces (mount : String) (root : PathOption) :
    (before : List Route) → List Route → Except Fault (List (Place Endpoint))
  | _, [] => .ok []
  | before, r :: rs =>
    match before.find? fun old => old.endpoint == r.endpoint with
    | some old =>
      .error (.badValue
        s!"This endpoint ({r.endpoint}) is already set to the class {routeLabel old}.")
    | none => do
      let alone := if r.kind = .root then [.text root.alone] else r.pattern
      let here ← placesOf mount alone r.pattern r.methods (.route r)
      let rest ← routePlaces mount root (before ++ [r]) rs
      pure (here ++ rest)

/-- The origins that an option allows. -/
def originOf : Value → Except Fault (Option String)
  | .null => .ok none
  | .text s => .ok (some s)
  | v => do
    let parts ← parts v
    let texts ← parts.mapM fun p =>
      match p with
      | .text s => .ok s
      | p => .error (.badType s!"a text was expected, not {Conversion.kindName p}")
    pure (some (", ".intercalate texts))
where
  /-- The parts of an option with several values. -/
  parts : Value → Except Fault (List Value)
    | .list vs => .ok vs
    | .object fields => .ok (fields.map fun f => .text f.1)
    | v => .error (.badType s!"'{Conversion.kindName v}' object is not iterable")

/-- Expose the types of a registry. -/
def expose (registry : Registry) (rules : RuleBook) (settings : Settings) (detail : Detail)
    (mount : String) : Except Fault Service := do
  let depth ← Conversion.toInt (settings.get "MAX_NESTING_DEPTH")
  let root : PathOption := ⟨settings.get "ROOT_PATH"⟩
  let routes ← Tree.routes registry depth root.text
  let origin ← originOf (settings.get "CORS_DOMAIN")
  let fromRoutes ← routePlaces mount root [] routes.routes
  let schema : PathOption := ⟨settings.get "SCHEMA_PATH"⟩
  let fromSchema ← placesOf mount [.text schema.alone] [.text schema.text] [.get] .schema
  pure
    { registry, rules, settings, detail, mount, origin, routes
      places := fromRoutes ++ fromSchema }

end Service

end Hypermedia
