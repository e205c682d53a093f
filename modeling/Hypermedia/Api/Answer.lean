import Hypermedia.Api.Request
import Hypermedia.Api.Service
import Hypermedia.Format.Negotiation
import Hypermedia.Format.Yaml
import Hypermedia.Graph.Payload
import Hypermedia.Graph.Representation
import Hypermedia.Text.Uri

/-!
# Answers

How a service answers a request from a store. What a method does at a place is a function
of its own (`Service.create`, `Service.update`, …); it may fail, and then the store is rolled
back and the answer tells the fault (`Service.guarded`).

Nothing is stored while anything is wrong with an entity: the answer is then the
representation of the errors, and the changes are discarded.
-/

namespace Hypermedia

namespace Service

variable {m : Type → Type} [Monad m] [MonadExceptOf Fault m] {R : Type}
variable (s : Service) (store : Store m R)

open MonadExcept (ofExcept)

/-! ## Answers without a store -/

/-- A page of the application itself, for answers that are not those of the api. -/
def plainPage (status : Nat) (name text : String) (headers : List (String × String)) :
    Response :=
  { status, contentType := Format.page.contentType, headers
    body :=
      s!"<!doctype html>\n<html lang=en>\n<title>{status} {name}</title>\n<h1>{name}</h1>\n" ++
        s!"<p>{text}</p>\n" }

/-- The page of a fault that cannot even be told. -/
def brokenPage : Response :=
  plainPage 500 "Internal Server Error"
    ("The server encountered an internal error and was unable to complete your request. " ++
      "Either the server is overloaded or there is an error in the application.") []

/-- The page of a file that is not there. -/
def noFilePage : Response :=
  plainPage 404 "Not Found"
    ("The requested URL was not found on the server. If you entered the URL manually please " ++
      "check your spelling and try again.") []

/-- The page of a method that files do not have. -/
def noMethodPage (allowed : String) : Response :=
  plainPage 405 "Method Not Allowed" (Fault.text .methodNotAllowed) [("Allow", allowed)]

/-- The answer that tells a fault. -/
def tell (f : Fault) (suffix : Option String) (headers : List (String × String)) : Response :=
  let body := Representation.ofMessage (f.message s.detail)
  match Negotiation.render s.settings s.detail body.toValue (Negotiation.forFault suffix)
      f.status headers with
  | .ok r => r
  | .error _ => brokenPage

/-! ## What the methods do -/

/-- The graph of the entities in the store. -/
def entities : WritableGraph m R :=
  { registry := s.registry, store, judge := s.rules.judge store.toStorage }

/-- The graph for reading. -/
def graph : ResourceGraph m R := (s.entities store).graph

/-- What every address in an answer begins with. -/
def root : String :=
  let v := s.settings.get "URL_ROOT"
  (if v.truthy then v.display else "") ++ s.mount

/-- How addresses are written in the answer to an address with this suffix. -/
def writer (suffix : Option String) : Renderer := { root := s.root, ext := suffix }

/-- The format of the answer to an address with this suffix. -/
def format (suffix : Option String) : m Value :=
  ofExcept (Negotiation.choose s.settings suffix)

/-- A representation as an answer. -/
def reply (format : Value) (x : Representation) (status : Nat)
    (headers : List (String × String)) : m Response :=
  ofExcept (Negotiation.renderAs s.settings s.detail x.toValue format status headers)

/-- Answer with the root of the api. -/
def showRoot (path : String) (x : Match) : m Response := do
  let format ← s.format x.suffix
  s.reply format ((s.writer x.suffix).apiRoot s.registry path) 200 []

/-- Answer with the description of the types. -/
def showSchema (request : Request) (x : Match) : m Response := do
  let format ← s.format x.suffix
  let description ← ofExcept s.registry.describe
  if request.queryNames.contains "yaml" then
    pure { status := 200, contentType := "text/yaml", headers := [], body := Yaml.text description }
  else s.reply format (.value description) 200 []

/-- Answer with a collection. -/
def showCollection (scope : Scope) (x : Match) : m Response := do
  let format ← s.format x.suffix
  let c ← scope.collection (s.graph store) x.params
  let body ← (s.writer x.suffix).collection (s.graph store) c false
  s.reply format body 200 []

/-- Answer with an entity. -/
def showEntity (scope : Scope) (x : Match) : m Response := do
  let format ← s.format x.suffix
  let e ← scope.entity (s.graph store) x.params
  let body ← (s.writer x.suffix).entity (s.graph store) e .default false
  s.reply format body 200 []

/-- The entity to which new members of a scope belong, with the relationship to them. -/
def ownerOf (scope : Scope) (x : Match) : m (Option (Entity R × Relationship)) :=
  match scope with
  | .relationship _ _ _ parent rel => do
    let e ← parent.entity (s.graph store) x.params
    pure (some (e, rel))
  | _ => pure none

/-- The headers that tell where a new entity is, if it is anywhere. -/
def locationOf (e : Entity R) (x : Match) : m (List (String × String)) := do
  let id ← store.identity e.record
  if id.isNull then pure []
  else do
    let uri ← e.uri (s.graph store) s.root x.suffix
    pure [("Location", Text.uriText uri)]

/-- Create a member of a collection. -/
def create (scope : Scope) (request : Request) (x : Match) : m Response := do
  let format ← s.format x.suffix
  let fields ← ofExcept (request.payload s.settings)
  let type := scope.memberType
  let owner ← s.ownerOf store scope x
  store.hold (owner.map fun o => o.1.record).toList
  let payload ← (s.entities store).mapPayload type fields
  let r ← store.build type payload.given
  match owner with
  | some (e, rel) => store.attach e.record rel r
  | none => pure ()
  let e := { (s.graph store).entity r type with payloadErrors := payload.errors }
  let isValid ← e.valid (s.graph store) [.default, .create]
  if isValid then
    store.persist r
    let e := (s.graph store).entity r type
    let headers ← s.locationOf store e x
    let body ← (s.writer x.suffix).entity (s.graph store) e .create false
    s.reply format body 201 headers
  else
    let body ← (s.writer x.suffix).entity (s.graph store) e .create false
    store.rollback
    s.reply format body 201 []

/-- Change an entity. -/
def update (scope : Scope) (request : Request) (x : Match) : m Response := do
  let format ← s.format x.suffix
  let e ← scope.entity (s.graph store) x.params
  let fields ← ofExcept (request.payload s.settings)
  store.hold [e.record]
  let payload ← (s.entities store).mapPayload e.type fields
  store.assign e.record payload.given
  let e := { e with payloadErrors := payload.errors }
  let isValid ← e.valid (s.graph store) [.default, .update]
  if isValid then
    store.persist e.record
    let body ← (s.writer x.suffix).entity (s.graph store) e .update false
    s.reply format body 200 []
  else
    let body ← (s.writer x.suffix).entity (s.graph store) e .update false
    store.rollback
    s.reply format body 200 []

/-- Remove an entity. -/
def remove (scope : Scope) (x : Match) : m Response := do
  let format ← s.format x.suffix
  let e ← scope.entity (s.graph store) x.params
  let isValid ← e.valid (s.graph store) [.destroy]
  if isValid then
    let isGone ← store.destroy e.record
    pure (Negotiation.empty (if isGone then 204 else 409) [])
  else
    let body ← (s.writer x.suffix).entity (s.graph store) e .destroy false
    s.reply format body 200 []

/-- What a method does at a route. -/
def atRoute (r : Route) (method : Method) (request : Request) (x : Match) : m Response :=
  match r.scope, method with
  | none, _ => s.showRoot r.spelling x
  | some scope, .post => s.create store scope request x
  | some scope, .put => s.update store scope request x
  | some scope, .delete => s.remove store scope x
  | some scope, .get =>
    if r.kind = .collection then s.showCollection store scope x
    else s.showEntity store scope x

/-- What a method does at a place. -/
def atPlace (p : Place Endpoint) (method : Method) (request : Request) (x : Match) :
    m Response :=
  match p.target with
  | .route r => s.atRoute store r method request x
  | .schema => s.showSchema request x

/-- The headers that let pages of other origins read an answer. -/
def originHeaders (allowed : String) : List (String × String) :=
  match s.origin with
  | none => []
  | some origin =>
    [("Access-Control-Allow-Origin", origin), ("Access-Control-Allow-Methods", allowed),
      ("Access-Control-Max-Age", "21600")]

/-- An answer, or one that tells the fault; then nothing that was not stored stays. -/
def guarded (allowed : String) (x : Match) (act : m Response) : m Response :=
  tryCatch
    (do
      let r ← act
      pure { r with headers := r.headers ++ s.originHeaders allowed })
    (fun f => do
      store.rollback
      pure (s.tell f x.suffix []))

/-! ## Requests to addresses -/

/-- The place and the method of a request, if they are served. -/
def chosen? (candidates : List (Place Endpoint × Match)) (request : Request) :
    Option (Place Endpoint × Match) :=
  candidates.find? fun c => c.1.methodNames.contains request.method

/-- The method that a name means: also the headers alone are read. -/
def methodOf (name : String) : Method :=
  if name == "POST" then .post
  else if name == "PUT" then .put
  else if name == "DELETE" then .delete
  else .get

/-- Is a path one of the files of the application, of which there are none? -/
def isFilePath (path : List Char) : Bool :=
  let folder := "/static/".toList
  folder.isPrefixOf path &&
    (match path.drop folder.length with
      | [] => false
      | c :: _ => c != '/')

/-- The names of the methods that are served where files are. -/
def fileMethods : List String := ["GET", "HEAD", "OPTIONS"]

/-- Answer a request to a path where files would be. -/
def answerFile (request : Request) : Response :=
  let allowed := ", ".intercalate fileMethods
  if s.refusal.isSome then brokenPage
  else if request.method == "OPTIONS" then Negotiation.empty 200 [("Allow", allowed)]
  else if fileMethods.contains request.method then noFilePage
  else noMethodPage allowed

/-- Answer a request to an address that these places read. -/
def answerAt (candidates : List (Place Endpoint × Match)) (request : Request) : m Response :=
  let allowed := ", ".intercalate
    ((candidates.flatMap fun c => c.1.methodNames).eraseDups)
  match s.refusal, chosen? candidates request with
  | some text, found => pure (s.tell (.application text) (found.bind fun c => c.2.suffix) [])
  | none, none =>
    if candidates.isEmpty then pure (s.tell .notFound none [])
    else pure (s.tell .methodNotAllowed none [("Allow", allowed)])
  | none, some (p, x) =>
    if request.method == "OPTIONS" then pure (Negotiation.empty 200 [("Allow", allowed)])
    else s.guarded store allowed x (s.atPlace store p (methodOf request.method) request x)

/-- Answer a request. Of an answer of which only the head is wanted the body is left out. -/
def answer (request : Request) : m Response := do
  let candidates := Place.candidates s.places request.path
  let r ←
    if candidates.isEmpty && isFilePath request.path then pure (s.answerFile request)
    else s.answerAt store candidates request
  pure (if request.isHead then { r with body := "" } else r)

end Service

end Hypermedia
