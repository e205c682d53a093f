import Hypermedia.Graph.Representation
import Hypermedia.Proofs.Fields
import Hypermedia.Proofs.Outcome
import Hypermedia.Proofs.Route.Ways

/-!
# Links are served

The full form of an entity links to the entity itself and to what its readable
relationships and its finders lead to, and the form of a collection links to its members
(`Emits`). A route serves something at an address if its pattern gives the address with ids
for its parameters, and its scope means the thing for these ids (`Route.Serves`). Where the
storage finds the entities by their ids every link is served (`links_served`).
-/

namespace Hypermedia

/-! ## Addresses -/

namespace Pattern

/-- The address that a pattern gives with ids in the places of its parameters. -/
def fill : Pattern → List String → String
  | [], _ => ""
  | .text t :: r, ids => t ++ fill r ids
  | .id _ :: r, id :: ids => "/" ++ id ++ fill r ids
  | .id _ :: _, [] => ""

/-- The parameters of a pattern with their ids. -/
def bindIds (pattern : Pattern) (ids : List String) : Scope.Params :=
  (params pattern).zip (ids.map .text)

end Pattern

namespace Representation

mutual

/-- The addresses in a representation. -/
def addresses : Representation → List String
  | .value _ => []
  | .address uri => [uri]
  | .list items => itemAddresses items
  | .object fields => fieldAddresses fields

/-- The addresses in the items of a list. -/
def itemAddresses : List Representation → List String
  | [] => []
  | x :: r => x.addresses ++ itemAddresses r

/-- The addresses in the fields of an object. -/
def fieldAddresses : List (String × Representation) → List String
  | [] => []
  | (_, x) :: r => x.addresses ++ fieldAddresses r

end

theorem mem_itemAddresses {u : String} {xs : List Representation} :
    u ∈ itemAddresses xs ↔ ∃ x ∈ xs, u ∈ x.addresses := by
  induction xs with
  | nil => simp [itemAddresses]
  | cons x xs ih => simp [itemAddresses, ih]

theorem mem_fieldAddresses {u : String} {fields : List (String × Representation)} :
    u ∈ fieldAddresses fields ↔ ∃ f ∈ fields, u ∈ f.2.addresses := by
  induction fields with
  | nil => simp [fieldAddresses]
  | cons f r ih => simp [fieldAddresses, ih]

end Representation

/-! ## Links and routes -/

/-- What a link leads to. -/
inductive LinkTarget (R : Type) where
  | entity (e : Entity R)
  | collection (c : Collection R)

variable {R : Type} (g : ResourceGraph (Except Fault) R)

/-- An entity is of a registered type, the most specific one of its record. -/
structure Entity.IsTyped (e : Entity R) : Prop where
  type_mem : e.type ∈ g.registry.types
  typeOf : g.typeOf? e.record (some e.type) = some e.type

/-- The storage finds the record of an entity under the own type of the entity, by the text
of its id. -/
def Entity.IsFound (e : Entity R) : Prop :=
  ∃ id, g.storage.identity e.record = .ok id ∧
    g.storage.get e.type (.text id.display) = .ok (some e.record)

/-- The links in the full form of an entity and in the form of a collection, with what they
were made from. -/
inductive Emits : LinkTarget R → String → LinkTarget R → Prop
  /-- An entity links to itself. -/
  | self {e u} : e.uri g "" none = .ok u → Emits (.entity e) u (.entity e)
  /-- An entity links to what a relationship to many leads to. -/
  | many {e rel c u} : rel ∈ e.type.readableRelationships → rel.isMany = true →
      g.relatedMany e rel = .ok c → c.uri g "" none = .ok u →
      Emits (.entity e) u (.collection c)
  /-- An entity links to what a relationship to one leads to. -/
  | one {e rel x u} : rel ∈ e.type.readableRelationships → rel.isMany = false →
      g.relatedOne e rel = .ok (some x) → x.uri g "" none = .ok u →
      Emits (.entity e) u (.entity x)
  /-- An entity links to what a finder finds. -/
  | found {e f c u} : f ∈ e.type.finders → g.found e f = .ok c → c.uri g "" none = .ok u →
      Emits (.entity e) u (.collection c)
  /-- A collection links to its members. -/
  | member {c x u} : x ∈ c.entities → x.uri g "" none = .ok u →
      Emits (.collection c) u (.entity x)

/-- The addresses in the form of something: of an entity its full form with links, of a
collection the one with links to its members. -/
def LinkTarget.linkForm : LinkTarget R → Except Fault Representation
  | .entity e => ({} : Renderer).entity g e .default false
  | .collection c => ({} : Renderer).collection g c false

/-- The entities that are shown are typed: an entity itself, the members of a collection. -/
def LinkTarget.IsTyped : LinkTarget R → Prop
  | .entity e => e.IsTyped g
  | .collection c => ∀ e ∈ c.entities, e.IsTyped g

/-- The entities whose ids stand in the address of something. -/
def LinkTarget.named : LinkTarget R → List (Entity R)
  | .entity e => [e]
  | .collection c =>
    match c.base with
    | .owner e => [e]
    | .type _ => []

/-- The scope of a route with these ids means an entity: the one of the same record and
type. Of a collection it has the members in their order. -/
def LinkTarget.IsMeantBy (x : Route) (params : Scope.Params) : LinkTarget R → Prop
  | .entity e => x.kind = .entity ∧ ∃ scope, x.scope = some scope ∧
      ∃ e', scope.entity g params = .ok e' ∧ e'.record = e.record ∧ e'.type = e.type
  | .collection c => x.kind = .collection ∧ ∃ scope, x.scope = some scope ∧
      ∃ c', scope.collection g params = .ok c' ∧ c'.entities = c.entities

/-- A route that can be read gives the address with the ids of what is named in it, and
means what the link leads to. -/
def Route.Serves (x : Route) (uri : String) (y : LinkTarget R) : Prop :=
  .get ∈ x.methods ∧ ∃ ids : List String, ids.length = (Pattern.params x.pattern).length ∧
    List.Forall₂ (fun e id => e.idText g = .ok id) y.named ids ∧
    x.pattern.fill ids = uri ∧ y.IsMeantBy g x (x.pattern.bindIds ids)

variable {g}

/-- The entities of a graph are typed. -/
theorem isTyped_entity (r : R) {t : ResourceType} (ht : t ∈ g.registry.types) :
    (g.entity r t).IsTyped g := by
  cases h : (g.storage.classOf r).bind g.registry.typeOf? with
  | none =>
    have he : g.entity r t = { type := t, record := r } := by
      simp [ResourceGraph.entity, ResourceGraph.typeOf?, h]
    rw [he]
    exact ⟨ht, by simp [ResourceGraph.typeOf?, h]⟩
  | some t' =>
    have he : g.entity r t = { type := t', record := r } := by
      simp [ResourceGraph.entity, ResourceGraph.typeOf?, h]
    obtain ⟨c, -, hc⟩ := Option.bind_eq_some_iff.1 h
    have hres : g.registry.resolve (.model c) = .ok t' := by
      simp [Registry.resolve, hc]
    have hmem : t' ∈ g.registry.types := Registry.resolve_mem hres
    rw [he]
    exact ⟨hmem, by simp [ResourceGraph.typeOf?, h]⟩

/-! ## What an address means -/

theorem idText_eq {e : Entity R} {id : Value} (hid : g.storage.identity e.record = .ok id) :
    e.idText g = .ok id.display := by
  simp [Entity.idText, hid, bind, Except.bind, pure, Except.pure]

theorem uri_eq {e : Entity R} {id : Value} (hid : g.storage.identity e.record = .ok id)
    {u : String} (h : e.uri g "" none = .ok u) :
    u = "/" ++ e.type.pluralName ++ "/" ++ id.display := by
  simp only [Entity.uri, Entity.idText, hid, bind_eq_ok, pure_eq_ok] at h
  obtain ⟨t, ⟨i, hi, rfl⟩, rfl⟩ := h
  cases hi
  simp [ResourceType.uri, Naming.formatSuffix, toString]

/-- The scope of all entities of its own type means an entity that is found, by its id. -/
theorem entity_ofType {e : Entity R} (he : e.IsTyped g) {id : Value}
    (hget : g.storage.get e.type (.text id.display) = .ok (some e.record)) (p : String) :
    (Scope.type e.type p).entity g [(p, .text id.display)] =
      .ok { type := e.type, record := e.record } := by
  simp [Scope.entity, Scope.idOf, ResourceGraph.lookup, ResourceGraph.entity, hget, he.typeOf,
    Scope.required, bind, Except.bind, pure, Except.pure]

/-- What a relationship to many leads to depends on the record alone. -/
theorem relatedMany_of_record (e' : Entity R) {e : Entity R} {rel : Relationship} {c : Collection R}
    (h : g.relatedMany e rel = .ok c) (hr : e'.record = e.record) :
    ∃ c', g.relatedMany e' rel = .ok c' ∧ c'.entities = c.entities := by
  simp only [ResourceGraph.relatedMany, bind_eq_ok, pure_eq_ok, hr] at h ⊢
  obtain ⟨t, ht, x, hx, rs, hrs, rfl⟩ := h
  exact ⟨_, ⟨t, ht, x, hx, rs, hrs, rfl⟩, rfl⟩

theorem found_of_record (e' : Entity R) {e : Entity R} {f : Finder} {c : Collection R}
    (h : g.found e f = .ok c) (hr : e'.record = e.record) :
    ∃ c', g.found e' f = .ok c' ∧ c'.entities = c.entities := by
  simp only [ResourceGraph.found, bind_eq_ok, pure_eq_ok, hr] at h ⊢
  obtain ⟨t, ht, rs, hrs, rfl⟩ := h
  exact ⟨_, ⟨t, ht, rs, hrs, rfl⟩, rfl⟩

/-- A relationship to many leads to a collection of its target below the entity. -/
theorem relatedMany_eq_ok {e : Entity R} {rel : Relationship} {c : Collection R}
    (h : g.relatedMany e rel = .ok c) :
    c.base = .owner e ∧ c.name = rel.name ∧ ∃ t, g.registry.resolve rel.target = .ok t := by
  simp only [ResourceGraph.relatedMany, bind_eq_ok, pure_eq_ok, ofExcept_eq] at h
  obtain ⟨t, ht, x, -, rs, -, rfl⟩ := h
  exact ⟨rfl, rfl, t, ht⟩

theorem found_eq_ok {e : Entity R} {f : Finder} {c : Collection R}
    (h : g.found e f = .ok c) :
    c.base = .owner e ∧ c.name = f.name ∧ ∃ t, g.registry.resolve f.target = .ok t := by
  simp only [ResourceGraph.found, bind_eq_ok, pure_eq_ok, ofExcept_eq] at h
  obtain ⟨t, ht, rs, -, rfl⟩ := h
  exact ⟨rfl, rfl, t, ht⟩

/-- A relationship to one leads to a typed entity. -/
theorem isTyped_of_relatedOne {e x : Entity R} {rel : Relationship}
    (h : g.relatedOne e rel = .ok (some x)) : x.IsTyped g := by
  simp only [ResourceGraph.relatedOne, bind_eq_ok, pure_eq_ok, ofExcept_eq] at h
  obtain ⟨t, ht, y, -, r, -, hx⟩ := h
  obtain ⟨r, -, rfl⟩ := Option.map_eq_some_iff.1 hx
  exact isTyped_entity r (Registry.resolve_mem ht)

/-! ## Routes of the first two levels -/

variable {maxDepth : Int} {rootPath : String} {table : RouteTable}

/-- An entity that is found is served at its address. -/
theorem serves_entity (hroutes : Tree.routes g.registry maxDepth rootPath = .ok table)
    {e : Entity R} (he : e.IsTyped g) (hfound : e.IsFound g) {u : String}
    (hu : e.uri g "" none = .ok u) : ∃ x ∈ table.routes, x.Serves g u (.entity e) := by
  obtain ⟨i, hi⟩ := List.getElem?_of_mem he.type_mem
  obtain ⟨id, hid, hget⟩ := hfound
  let w : Tree.Way := { place := i, start := e.type, steps := [] }
  have hw : w.IsIn g.registry maxDepth :=
    { start := hi, follows := trivial, edges_nodup := List.nodup_nil
      length_le := by simp only [w, List.length_nil]; omega }
  obtain ⟨x, hx, hkind, hpattern, hscope, hmethods⟩ :=
    Tree.exists_entity_route g.registry w.spot
  have hpat : x.pattern =
      [.text s!"/{e.type.pluralName}", .id (Tree.paramName e.type [] 0)] := hpattern
  have hbind : x.pattern.bindIds [id.display] =
      [(Tree.paramName e.type [] 0, .text id.display)] := by
    simp [hpat, Pattern.bindIds, Pattern.params, List.filterMap_cons, PatternPiece.param?]
  refine ⟨x, (Tree.mem_routes hroutes).2 (Or.inr ⟨w, hw, hx⟩), hmethods, [id.display], ?_,
    .cons (idText_eq hid) .nil, ?_, hkind, Scope.type e.type (Tree.paramName e.type [] 0), hscope,
    { type := e.type, record := e.record }, ?_, rfl, rfl⟩
  · simp [hpat, Pattern.params, List.filterMap_cons, PatternPiece.param?]
  · rw [uri_eq hid hu, hpat]
    simp [Pattern.fill, toString, String.append_assoc]
  · rw [hbind]
    exact entity_ofType he hget _

/-- What a branch to many of an entity leads to is served below the address of the entity. -/
theorem serves_branch (hroutes : Tree.routes g.registry maxDepth rootPath = .ok table)
    (hdepth : 1 ≤ maxDepth) {e : Entity R} (he : e.IsTyped g) (hfound : e.IsFound g)
    {b : Tree.Branch} (hb : b ∈ Tree.branches e.type) (hd : b.isDeep = true) {t : ResourceType}
    (ht : g.registry.resolve b.target = .ok t) {c : Collection R} (hbase : c.base = .owner e)
    (hname : c.name = b.name) {u : String} (hu : c.uri g "" none = .ok u)
    (hc : ∀ (s : Scope) (params : Scope.Params) (p : String),
      s.entity g params = .ok { type := e.type, record := e.record } →
      ∃ c', (Tree.childScope s t p b).collection g params = .ok c' ∧
        c'.entities = c.entities) :
    ∃ x ∈ table.routes, x.Serves g u (.collection c) := by
  obtain ⟨i, hi⟩ := List.getElem?_of_mem he.type_mem
  obtain ⟨j, hj⟩ := List.getElem?_of_mem hb
  obtain ⟨id, hid, hget⟩ := hfound
  let w : Tree.Way :=
    { place := i, start := e.type, steps := [{ place := j, branch := b, target := t }] }
  have hw : w.IsIn g.registry maxDepth :=
    { start := hi, follows := ⟨hj, hd, ht, trivial⟩, edges_nodup := List.nodup_singleton _
      length_le := by simp only [w, List.length_singleton]; omega }
  obtain ⟨x, hx, hkind, hpattern, hscope, hmethods⟩ :=
    Tree.exists_collection_route g.registry w.spot
  let p := Tree.paramName e.type [] 0
  have hpat : x.pattern =
      [.text s!"/{e.type.pluralName}", .id p, .text s!"/{b.name}"] := hpattern
  have hbind : x.pattern.bindIds [id.display] = [(p, .text id.display)] := by
    simp [hpat, Pattern.bindIds, Pattern.params, List.filterMap_cons, PatternPiece.param?]
  obtain ⟨c', hc', hents⟩ := hc (.type e.type p) _ (Tree.paramName t [p] 1)
    (entity_ofType he hget p)
  have hnamed : (LinkTarget.collection c).named = [e] := by simp [LinkTarget.named, hbase]
  refine ⟨x, (Tree.mem_routes hroutes).2 (Or.inr ⟨w, hw, hx⟩), hmethods, [id.display], ?_,
    hnamed ▸ .cons (idText_eq hid) .nil, ?_, hkind, _, hscope, c', ?_, hents⟩
  · simp [hpat, Pattern.params, List.filterMap_cons, PatternPiece.param?]
  · simp only [Collection.uri, hbase, bind_eq_ok, pure_eq_ok] at hu
    obtain ⟨v, hv, rfl⟩ := hu
    rw [uri_eq hid hv, hname, hpat]
    simp [Pattern.fill, toString, Naming.formatSuffix, String.append_assoc]
  · rw [hbind]
    exact hc'

/-- Every link of something typed is served, where the storage finds the entities whose ids
stand in the links. -/
theorem exists_serves (hroutes : Tree.routes g.registry maxDepth rootPath = .ok table)
    (hdepth : 1 ≤ maxDepth) {x : LinkTarget R} (hx : x.IsTyped g)
    (hfound : ∀ u y, Emits g x u y → ∀ e ∈ y.named, e.IsFound g) {u : String}
    {y : LinkTarget R} (h : Emits g x u y) : ∃ route ∈ table.routes, route.Serves g u y := by
  cases h with
  | self hu =>
    exact serves_entity hroutes hx (hfound _ _ (.self hu) _ (by simp [LinkTarget.named])) hu
  | @one e rel z _ hrel hmany hone hu =>
    exact serves_entity hroutes (isTyped_of_relatedOne hone)
      (hfound _ _ (.one hrel hmany hone hu) _ (by simp [LinkTarget.named])) hu
  | member hmem hu =>
    exact serves_entity hroutes (hx _ hmem)
      (hfound _ _ (.member hmem hu) _ (by simp [LinkTarget.named])) hu
  | @many e rel c _ hrel hmany hc hu =>
    obtain ⟨hbase, hname, t, ht⟩ := relatedMany_eq_ok hc
    have he := hfound _ _ (.many hrel hmany hc hu) e (by simp [LinkTarget.named, hbase])
    refine serves_branch hroutes hdepth hx he (b := .relationship rel) ?_ hmany ht hbase hname hu ?_
    · simp [Tree.branches, hrel]
    · intro s params p hs
      obtain ⟨c', hc', hents⟩ := relatedMany_of_record ⟨e.type, e.record, []⟩ hc rfl
      exact ⟨c', by simp [Tree.childScope, Scope.collection, hs, hc', bind, Except.bind], hents⟩
  | @found e f c _ hf hc hu =>
    obtain ⟨hbase, hname, t, ht⟩ := found_eq_ok hc
    have he := hfound _ _ (.found hf hc hu) e (by simp [LinkTarget.named, hbase])
    refine serves_branch hroutes hdepth hx he (b := .finder f) ?_ rfl ht hbase hname hu ?_
    · simp [Tree.branches, hf]
    · intro s params p hs
      obtain ⟨c', hc', hents⟩ := found_of_record ⟨e.type, e.record, []⟩ hc rfl
      exact ⟨c', by simp [Tree.childScope, Scope.collection, hs, hc', bind, Except.bind], hents⟩

/-! ## The forms have no other links -/

theorem entityLink_addresses {e : Entity R} {x : Representation}
    (h : ({} : Renderer).entityLink g e = .ok x) {u : String} (hu : u ∈ x.addresses) :
    e.uri g "" none = .ok u := by
  simp only [Renderer.entityLink, bind_eq_ok, pure_eq_ok] at h
  obtain ⟨v, hv, rfl⟩ := h
  simp only [Representation.addresses, Representation.mem_fieldAddresses, List.mem_singleton,
    exists_eq_left] at hu
  exact hu ▸ hv

theorem collectionLink_addresses {c : Collection R} {x : Representation}
    (h : ({} : Renderer).collectionLink g c = .ok x) {u : String} (hu : u ∈ x.addresses) :
    c.uri g "" none = .ok u := by
  simp only [Renderer.collectionLink, bind_eq_ok, pure_eq_ok] at h
  obtain ⟨v, hv, rfl⟩ := h
  simp only [Representation.addresses, Representation.mem_fieldAddresses, List.mem_cons,
    List.not_mem_nil, or_false] at hu
  obtain ⟨f, rfl | rfl, hf⟩ := hu
  · simp only [Representation.addresses, List.mem_singleton] at hf
    exact hf ▸ hv
  · simp [Representation.addresses] at hf

/-- The form of a collection has its own address and those of its members. -/
theorem listing_addresses {c : Collection R} {x : Representation}
    (h : ({} : Renderer).collection g c false = .ok x) {u : String} (hu : u ∈ x.addresses) :
    c.uri g "" none = .ok u ∨ ∃ y, Emits g (.collection c) u y := by
  simp only [Renderer.collection, Bool.false_eq_true, if_false, Renderer.listing, bind_eq_ok,
    pure_eq_ok] at h
  obtain ⟨items, hitems, v, hv, rfl⟩ := h
  simp only [Representation.addresses, Representation.mem_fieldAddresses, List.mem_cons,
    List.not_mem_nil, or_false] at hu
  obtain ⟨f, rfl | rfl | rfl, hf⟩ := hu
  · simp only [Representation.addresses, List.mem_singleton] at hf
    exact Or.inl (hf ▸ hv)
  · simp [Representation.addresses] at hf
  · obtain ⟨item, hitem, hu⟩ := Representation.mem_itemAddresses.1 hf
    obtain ⟨e, he, hlink⟩ := exists_of_mem_mapM hitems hitem
    exact Or.inr ⟨_, .member he (entityLink_addresses hlink hu)⟩

/-- The full form of an entity has the addresses of the entity and of what it leads to. -/
theorem full_addresses {e : Entity R} {x : Representation}
    (h : ({} : Renderer).full g (({} : Renderer).entityLink g) (({} : Renderer).collectionLink g) e
      = .ok x) {u : String} (hu : u ∈ x.addresses) : ∃ y, Emits g (.entity e) u y := by
  simp only [Renderer.full, bind_eq_ok, pure_eq_ok] at h
  obtain ⟨v, hv, values, hvalues, related, hrelated, found, hfound, rfl⟩ := h
  obtain ⟨f, hf, hu⟩ := Representation.mem_fieldAddresses.1 hu
  rcases Fields.mem_putAll _ _ hf with hf | hf
  · rw [List.mem_singleton] at hf
    subst hf
    simp only [Representation.addresses, List.mem_singleton] at hu
    exact ⟨_, .self (hu ▸ hv)⟩
  simp only [List.mem_append] at hf
  rcases hf with (hf | hf) | hf
  · obtain ⟨p, -, hp⟩ := exists_of_mem_mapM hvalues hf
    simp only [bind_eq_ok, pure_eq_ok] at hp
    obtain ⟨a, -, rfl⟩ := hp
    simp [Representation.addresses] at hu
  · obtain ⟨rel, hrel, hp⟩ := exists_of_mem_mapM hrelated hf
    split at hp
    · next hmany =>
      simp only [bind_eq_ok, pure_eq_ok] at hp
      obtain ⟨c, hc, y, hy, rfl⟩ := hp
      exact ⟨_, .many hrel hmany hc (collectionLink_addresses hy hu)⟩
    · next hmany =>
      simp only [bind_eq_ok] at hp
      obtain ⟨o, ho, hp⟩ := hp
      cases o with
      | none =>
        simp only [pure_eq_ok] at hp
        subst hp
        simp [Representation.addresses] at hu
      | some other =>
        simp only [bind_eq_ok, pure_eq_ok] at hp
        obtain ⟨y, hy, rfl⟩ := hp
        exact ⟨_, .one hrel (by simpa using hmany) ho (entityLink_addresses hy hu)⟩
  · obtain ⟨fi, hfi, hp⟩ := exists_of_mem_mapM hfound hf
    simp only [bind_eq_ok, pure_eq_ok] at hp
    obtain ⟨c, hc, y, hy, rfl⟩ := hp
    exact ⟨_, .found hfi hc (collectionLink_addresses hy hu)⟩

/-- The form of something has no addresses but its own and those of its links. -/
theorem linkForm_addresses {x : LinkTarget R} {form : Representation}
    (h : x.linkForm g = .ok form) {u : String} (hu : u ∈ form.addresses) :
    (∃ c, x = .collection c ∧ c.uri g "" none = .ok u) ∨ ∃ y, Emits g x u y := by
  cases x with
  | collection c => exact (listing_addresses h hu).imp (fun h => ⟨c, rfl, h⟩) id
  | entity e =>
    simp only [LinkTarget.linkForm, Renderer.entity, Bool.false_eq_true, if_false,
      Renderer.linked, Renderer.gated, bind_eq_ok] at h
    obtain ⟨es, -, h⟩ := h
    split at h
    · exact Or.inr (full_addresses h hu)
    · obtain rfl := pure_eq_ok.1 h
      simp [Representation.ofErrors, Representation.addresses,
        Representation.mem_fieldAddresses] at hu

/-! ## Links are served -/

/-- Every address in the full form of a typed entity, and in that of a collection with links
to its members, is the collection's own or that of a link, and every link is served by a
route that can be read. The storage has to find the entities whose ids stand in the links. -/
theorem links_served (hroutes : Tree.routes g.registry maxDepth rootPath = .ok table)
    (hdepth : 1 ≤ maxDepth) (x : LinkTarget R) (hx : x.IsTyped g)
    (hfound : ∀ u y, Emits g x u y → ∀ e ∈ y.named, e.IsFound g) :
    (∀ form, x.linkForm g = .ok form → ∀ u ∈ form.addresses,
      (∃ c, x = .collection c ∧ c.uri g "" none = .ok u) ∨ ∃ y, Emits g x u y) ∧
    ∀ u y, Emits g x u y → ∃ route ∈ table.routes, route.Serves g u y :=
  ⟨fun _ hform _ hu => linkForm_addresses hform hu,
    fun _ _ h => exists_serves hroutes hdepth hx hfound h⟩

/-- A type of notes, with the next notes, the note above and a finder of the note itself. -/
def noteType : ResourceType where
  name := "Note"
  relationships :=
    [{ name := "next", target := .named "Note" },
      { name := "up", target := .named "Note", cardinality := .one }]
  finders := [{ name := "again", target := .named "Note", rule := .select none none false }]
  plural := some "notes"

/-- Two notes, of which the first is above the second and followed by it. -/
def twoNotes : ResourceGraph (Except Fault) Bool where
  registry := ⟨[noteType]⟩
  storage :=
    { classOf := fun _ => none
      query := fun _ => .ok [false, true]
      get := fun _ id => .ok ([false, true].find? fun r => id == .text (if r then "1" else "0"))
      identity := fun r => .ok (.text (if r then "1" else "0"))
      value := fun _ _ => .ok .null
      related := fun r rel =>
        .ok (if rel.isMany then .many (if r then [] else [true])
          else if r then .one false else .nothing)
      source := fun _ _ => .ok [] }
  judge := fun _ _ => .ok .null

theorem links_served_twoNotes : ∃ table, Tree.routes twoNotes.registry 1 "/" = .ok table ∧
    ∃ route ∈ table.routes,
      route.Serves twoNotes "/notes/0" (.entity ⟨noteType, false, []⟩) := by
  have hx : (LinkTarget.entity (R := Bool) ⟨noteType, true, []⟩).IsTyped twoNotes :=
    ⟨List.mem_cons_self, rfl⟩
  have hfound : ∀ e : Entity Bool, e.IsFound twoNotes := by
    rintro ⟨t, r, es⟩
    cases r <;> exact ⟨_, rfl, rfl⟩
  let up : Relationship := { name := "up", target := .named "Note", cardinality := .one }
  have hrel : up ∈ noteType.readableRelationships := by
    simp [up, noteType, ResourceType.readableRelationships, Relationship.isReadable]
  have hup : Emits twoNotes (.entity ⟨noteType, true, []⟩) "/notes/0"
      (.entity ⟨noteType, false, []⟩) := .one hrel rfl rfl (by decide +kernel)
  obtain ⟨table, hroutes⟩ : ∃ table, Tree.routes twoNotes.registry 1 "/" = .ok table := ⟨_, rfl⟩
  refine ⟨table, hroutes, ?_⟩
  exact (links_served hroutes (by decide) _ hx fun _ _ _ e _ => hfound e).2 _ _ hup

end Hypermedia
