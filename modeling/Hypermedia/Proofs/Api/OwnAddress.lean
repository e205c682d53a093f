import Hypermedia.Proofs.Api.Echoing
import Hypermedia.Proofs.Api.Unambiguous

/-!
# Records are shown alike on all paths

Many routes lead to one record: members of relationships, finders, and types that its own type
extends. Whichever is taken, what is answered is the full form of the record as an entity of its
own type (`Site.showsOwn_of_respond`), which depends on what is stored alone. The address in it is
that of the route to the entities of this type, below no others (`RouteTable.IsTop`), and whoever
reads it is answered with the very same text (`Site.read_of_showsOwn`).
-/

namespace Hypermedia

/-- The route of a table to the entities of a type, below no others. -/
structure RouteTable.IsTop (table : RouteTable) (t : ResourceType) (x : Route) : Prop where
  mem : x ∈ table.routes
  kind : x.kind = .entity
  scope : ∃ q, x.scope = some (.type t q) ∧ x.pattern = [.text s!"/{t.pluralName}", .id q]

/-- Its address is the one of the type. -/
theorem RouteTable.IsTop.address_eq {table : RouteTable} {t : ResourceType} {x : Route}
    (h : table.IsTop t x) (id : String) (format : Option String) :
    x.address [id] format = String.ofList (t.address id.toList format) := by
  obtain ⟨q, -, hpattern⟩ := h.scope
  rw [← String.toList_inj, Route.toList_address, hpattern, Pattern.toList_fill_name,
    Pattern.toList_fill_id]
  simp [Pattern.fill, ResourceType.address]

namespace Service

/-- There is such a route for each type. -/
theorem Exposes.exists_top {s : Service} (h : s.Exposes) {t : ResourceType}
    (ht : t ∈ s.registry.types) : ∃ x, s.routes.IsTop t x := by
  obtain ⟨depth, -, hroutes⟩ := h.routes
  obtain ⟨x, hx, q, hpattern, hkind, hscope⟩ := Tree.exists_one_of_mem_types hroutes ht
  exact ⟨x, hx, hkind, q, hscope, hpattern⟩

/-- The answer shows the record that a scope leads to, in full and as an entity of its own type. -/
def ShowsOwn (s : Service) (c : Catalog) (D : Database) (scope : Scope) (x : Match)
    (r : Response) : Prop :=
  ∃ t m k row, s.LeadsTo c D scope x.params t m k row ∧
    Negotiation.IsText s.settings s.detail x.suffix
      (c.fullForm s.registry D (s.writer x.suffix) t m k row).toValue r.body

end Service

namespace Act

open Service

variable {s : Service} {c : Catalog} {D : Database} (hD : c.Sound D) (h : s.Serves c)

include hD h

/-- A scope leads to no record, which is a fault, or the record is shown as one of its own type. -/
theorem ends_showEntity_own {scope : Scope} (hscope : scope.Formed s.registry) (x : Match) :
    Ends (s.showEntity c.store scope x) (.start D) (fun r _ => s.ShowsOwn c D scope x r)
      fun _ _ => True := by
  obtain ⟨hp, hx, hsettings, -⟩ := h
  unfold showEntity
  refine (keeps_format x.suffix).ends_bind (I := fun u => u = .start D) rfl ?_ fun _ _ _ => trivial
  rintro format u rfl hformat
  rw [ends_bind]
  refine ((ends_exec _ _).and (reads_scopeEntity (Catalog.Quiet.reading hp hD) (fun _ h => h) hp
    hD hx hscope x.params (Catalog.quiet_start D))).imp (fun e u he => ?_) fun _ _ _ => trivial
  obtain ⟨hexec, hu, -, ⟨m, k, row, htyped⟩, -⟩ := he
  obtain ⟨-, hpresents⟩ := hx.presents_of_typeOf htyped.mem htyped.type
  exact (ends_shown hp hx hsettings hD hu htyped (hpresents.passes_default _) hformat
    (by decide) []).imp (fun r _ hr =>
      ⟨e.type, m, k, row, ⟨e, u, hexec, htyped.toKnown, htyped.type⟩, hr.2.2.body⟩) fun _ _ h => h

/-- A request to read at a route to one record shows the record, or its answer tells a fault. -/
theorem ends_answer_own (hs : s.Exposes) {request : Request} (hmethod : request.method = "GET")
    {p : Place Endpoint} {y : Match} (hmatch : s.matchOf? request = some (p, y)) {x : Route}
    (htarget : p.target = .route x) (hkind : x.kind = .entity ∨ x.kind = .singular) :
    Ends (s.answer c.store request) (.start D) (fun r _ => r.status = 200 →
      ∃ scope, x.scope = some scope ∧ s.ShowsOwn c D scope y r) fun _ _ => False := by
  have hmeans : methodOf request.method = .get := by rw [hmethod]; rfl
  have hplace := (Place.mem_candidates.1 (List.mem_of_find?_eq_some hmatch)).1
  have hroute : x ∈ s.routes.routes := by
    rcases hs.target hplace with ⟨x', hx', htarget', -⟩ | hschema
    · obtain rfl : x' = x := by simpa using htarget'.symm.trans htarget
      exact hx'
    · rw [hschema] at htarget
      cases htarget
  obtain ⟨depth, -, hroutes⟩ := hs.routes
  obtain ⟨scope, hscope, hformed, -⟩ :=
    Tree.scope_of_mem_routes hroutes hroute (by rcases hkind with h | h <;> rw [h] <;> decide)
  have hshow : s.atPlace c.store p .get request y = s.showEntity c.store scope y := by
    rw [atPlace, htarget]
    dsimp only
    unfold atRoute
    rw [hscope]
    exact if_neg (by rcases hkind with h | h <;> rw [h] <;> decide)
  refine ends_answer_at hs (by rw [Request.isHead, hmethod]; decide) (by rw [hmethod]; decide)
    hmatch ?_
  rw [hmeans, hshow]
  refine (ends_showEntity_own hD h hformed y).imp (fun r _ hr _ _ => ⟨scope, hscope, hr⟩)
    fun f _ _ hstatus => ?_
  have hfault := le_status_tell (s := s) f y.suffix []
  omega

end Act

namespace Site

variable {site : Site} (h : site.Stands) {D : Database} (hD : site.catalog.Sound D)

include h hD

/-- A request to read at a route to one record that is not answered with a fault shows the
record. -/
theorem showsOwn_of_respond {request : Request} (hmethod : request.method = "GET")
    {p : Place Endpoint} {y : Match} (hmatch : site.service.matchOf? request = some (p, y))
    {x : Route} (htarget : p.target = .route x) (hkind : x.kind = .entity ∨ x.kind = .singular)
    (hstatus : (site.respond D request).2.status = 200) :
    ∃ scope, x.scope = some scope ∧
      site.service.ShowsOwn site.catalog D scope y (site.respond D request).2 := by
  obtain ⟨-, -, hanswer⟩ := respond_of_answer
    (Act.ends_answer_own hD h.serves h.exposes hmethod hmatch htarget hkind)
  exact hanswer hstatus

/-- What shows a record tells the address of its own, and whoever asks for this address gets the
same text. -/
theorem read_of_showsOwn (he : site.Echoes) {scope : Scope} {y : Match} {r : Response}
    (hr : site.service.ShowsOwn site.catalog D scope y r) :
    ∃ t m k row top fields,
      site.service.LeadsTo site.catalog D scope y.params t m k row ∧
      site.service.routes.IsTop t top ∧
      Negotiation.IsText site.service.settings site.service.detail y.suffix (.object fields)
        r.body ∧
      Fields.get? "uri" fields = some (.text (top.address [toString k] y.suffix)) ∧
      (site.respond D (.ofAddress "GET" (top.address [toString k] y.suffix) "")).2.status = 200 ∧
      (site.respond D (.ofAddress "GET" (top.address [toString k] y.suffix) "")).2.body =
        r.body := by
  obtain ⟨t, m, k, row, hleads, hbody⟩ := hr
  obtain ⟨_, _, -, hknown, ht⟩ := id hleads
  obtain ⟨htmem, -⟩ := h.serves.exposed.presents_of_typeOf hknown.mem ht
  obtain ⟨top, htop⟩ := h.exposes.exists_top htmem
  obtain ⟨location, fields, hlocation, hbody, huri, hgot, hsame, -⟩ :=
    site.read_of_fullForm h he hD hknown.mem hknown.built ht hknown.row hbody
  rw [← htop.address_eq] at hlocation
  subst hlocation
  exact ⟨t, m, k, row, top, fields, hleads, htop, hbody, huri, hgot, hsame⟩

end Site

end Hypermedia
