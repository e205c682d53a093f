import Hypermedia.Proofs.Api.OwnAddress
import Hypermedia.Proofs.Graph.Finding

/-!
# What deleting leaves

Only removing is answered with the status for nothing, so a request to delete that is answered
with it was at a route to a record, and the database lost just this one
(`Site.removes_of_respond`). Whoever asks for its own address is told that there is none
(`Site.status_missing`). Where a row must refer to the record, the answer is a conflict
(`Site.status_bound`).
-/

namespace Hypermedia

/-- A request is served at a route with a scope, with the parameters of the match. -/
def Service.Reaches (s : Service) (request : Request) (scope : Scope) (y : Match) : Prop :=
  ∃ p x, s.matchOf? request = some (p, y) ∧ p.target = .route x ∧ x.scope = some scope

theorem Service.Reaches.formed {s : Service} {request : Request} {scope : Scope} {y : Match}
    (h : s.Reaches request scope y) (hs : s.Exposes) : scope.Formed s.registry := by
  obtain ⟨p, x, hmatch, htarget, hscope⟩ := h
  rcases hs.formed (Place.mem_candidates.1 (List.mem_of_find?_eq_some hmatch)).1 with
    ⟨x', hx, htarget', -⟩ | hschema
  · obtain rfl : x' = x := by simpa using htarget'.symm.trans htarget
    exact (hx scope hscope).1
  · rw [hschema] at htarget
    cases htarget

/-- The number of a row leads to the record of the row. -/
theorem Service.leadsTo_of_row {s : Service} {c : Catalog} {D : Database} (h : s.Serves c)
    (hD : c.Sound D) {m : Model} (hm : c.Fills m) {t : ResourceType}
    (ht : s.registry.typeOf? m.recordClass = some t) {k : Int} {row : Row}
    (hrow : D.row? m.rootTable k = some row) (q : String) :
    s.LeadsTo c D (.type t q) [(q, .text (toString k))] t m k row := by
  have hentity := Act.reads_storedEntity (Catalog.Quiet.reading h.plain hD) (fun _ h => h) h.plain
    hD h.exposed hm ht hrow q (Catalog.quiet_start D)
  obtain ⟨e, u, hexec, -, -, -, htyped⟩ := hentity.exists_ok fun _ _ h => h.2.2
  exact ⟨e, u, hexec, htyped.toKnown, ht⟩

namespace Act

open Service

variable {s : Service} {c : Catalog} {D : Database} (hD : c.Sound D)

/-- Where answers can be written a fault is told with its status. -/
theorem status_tell (hs : s.settings.CanReply) (f : Fault) (suffix : Option String)
    (headers : List (String × String)) : (s.tell f suffix headers).status = f.status := by
  obtain ⟨body, hbody⟩ : ∃ body, Negotiation.text s.settings s.detail
      (Representation.ofMessage (f.message s.detail)).toValue (Negotiation.forFault suffix) =
        .ok body :=
    Negotiation.exists_text hs rfl _
  unfold Service.tell
  simp only [Negotiation.render, hbody]
  rfl

include hD

/-- A request to delete that is answered with nothing removed the record of its route. -/
theorem ends_answer_delete (h : s.Serves c) (hs : s.Exposes) {request : Request}
    (hmethod : request.method = "DELETE") : Ends (s.answer c.store request) (.start D)
      (fun r t => r.status = 204 →
        ∃ scope y, s.Reaches request scope y ∧ s.Removes c D scope y.params t)
      fun _ _ => False := by
  refine ends_answer_of (E := fun _ _ => True) (fun r t _ hstatus hgone => by omega) hs
    (fun _ _ r _ hstatus hgone => by omega) (fun _ _ _ hr => hr) (fun _ _ _ hr => hr)
    fun p y hmatch hplace hpost => ?_
  refine ends_atPlace_of (fun r t _ hstatus hgone => by omega) (fun _ _ _ => trivial) h.plain hD hs
    hplace hpost request y fun act hact => ?_
  have hmeans : methodOf request.method = .delete := by rw [hmethod]; rfl
  rw [hmeans] at hact
  cases hact with
  | @remove x scope htarget hscope hformed =>
    exact ends_remove_of h.plain hD h.exposed hformed y (fun r _ hne _ hgone => absurd hgone hne)
      (fun _ hu _ => ⟨scope, y, ⟨p, x, hmatch, htarget, hscope⟩, hu⟩) |>.imp (fun _ _ hr => hr)
        fun _ _ _ => trivial

/-- Whoever asks for the address of a number that no row has is told that there is nothing. -/
theorem ends_answer_missing (h : s.Serves c) (hs : s.Exposes) (hsep : s.Separates) {m : Model}
    (hm : m ∈ c.models) {t : ResourceType} (ht : s.registry.typeOf? m.recordClass = some t)
    {k : Int} (hlow : 0 ≤ k) (hhigh : k < storeIntegerBound) (hgone : D.row? m.rootTable k = none)
    {ext : Option String} (hext : Format.IsSuffix ext) {request : Request}
    (hmethod : request.method = "GET")
    (hpath : request.path = t.address (toString k).toList ext) :
    Ends (s.answer c.store request) (.start D) (fun r _ => r.status = 404) fun _ _ => False := by
  obtain ⟨htmem, hpresents⟩ := h.exposed.presents_of_typeOf hm ht
  refine ends_answer_address hext hs hsep htmem hlow hmethod hpath fun q => ?_
  obtain ⟨format, hformat⟩ : ∃ v, Negotiation.choose s.settings ext = .ok v :=
    Negotiation.exists_choose hext
  unfold showEntity Service.format
  rw [hformat, monadOfExcept_eq, ofExcept_ok, pure_bind, ends_bind]
  have hmeans : (Value.text (toString k)).Means k := Conversion.toInt_toString hlow hhigh
  refine (ends_entityAt (Catalog.Quiet.reading h.plain hD) h.plain hD hpresents.model
    (.text (toString k)) q (Catalog.quiet_start D)).imp (fun e u he => ?_) fun f u hf => ?_
  · obtain ⟨j, row, hj, hrow, -⟩ := he
    obtain rfl := hmeans.unique hj
    cases hgone.symm.trans hrow.1
  · rcases hf with hlarge | ⟨rfl, -⟩
    · exact absurd hlarge (hmeans.not_tooLarge ⟨by omega, hhigh⟩)
    · exact status_tell h.settings _ _ _

/-- A request to delete a record to which a column that must not be empty refers is answered with a
conflict. -/
theorem ends_answer_bound (h : s.Serves c) (hs : s.Exposes) {request : Request}
    (hmethod : request.method = "DELETE") {scope : Scope} {y : Match}
    (hreaches : s.Reaches request scope y) (hsuffix : Format.IsSuffix y.suffix)
    {t : ResourceType} {m : Model} {k : Int} {row : Row}
    (hleads : s.LeadsTo c D scope y.params t m k row)
    (hpass : t.Passes s.rules .destroy (Row.get row)) (hflat : c.isFlat m = true)
    (hbinds : c.Binds D m.rootTable k) :
    Ends (s.answer c.store request) (.start D) (fun r _ => r.status = 409) fun _ _ => False := by
  obtain ⟨p, x, hmatch, htarget, hscope⟩ := id hreaches
  have hremove : s.atPlace c.store p (methodOf request.method) request y =
      s.remove c.store scope y := by
    rw [hmethod, atPlace, htarget]
    dsimp only
    unfold atRoute
    rw [hscope]
    rfl
  obtain ⟨format, hformat⟩ : ∃ v, Negotiation.choose s.settings y.suffix = .ok v :=
    Negotiation.exists_choose hsuffix
  refine ends_answer_at hs (by rw [Request.isHead, hmethod]; decide) (by rw [hmethod]; decide)
    hmatch ?_
  rw [hremove]
  exact (ends_remove_bound h.plain hD h.exposed (hreaches.formed hs) y hleads hpass hflat hbinds
    hformat).imp (fun _ _ hr _ => hr) fun _ _ h => h.elim

end Act

namespace Site

open Service

variable {site : Site} (h : site.Stands) {D : Database} (hD : site.catalog.Sound D)

include h hD

/-- A request to delete that is answered with nothing removed the record that it leads to. -/
theorem removes_of_respond {request : Request} (hmethod : request.method = "DELETE")
    (hstatus : (site.respond D request).2.status = 204) :
    ∃ scope y t m k row, site.service.Reaches request scope y ∧
      site.service.LeadsTo site.catalog D scope y.params t m k row ∧
      site.catalog.Loses m.rootTable k D (site.respond D request).1 := by
  obtain ⟨u, hu, hanswer⟩ :=
    respond_of_answer (Act.ends_answer_delete hD h.serves h.exposes hmethod)
  obtain ⟨scope, y, hreaches, t, m, k, row, hleads, -, hloses⟩ := hanswer hstatus
  exact ⟨scope, y, t, m, k, row, hreaches, hleads, hu ▸ hloses⟩

/-- Whoever asks for the own address of a record that is not stored is told that there is none. -/
theorem status_missing (he : site.Echoes) {m : Model} (hm : m ∈ site.catalog.models)
    {t : ResourceType} (ht : site.service.registry.typeOf? m.recordClass = some t) {top : Route}
    (htop : site.service.routes.IsTop t top) {k : Int} (hlow : 0 ≤ k)
    (hhigh : k < storeIntegerBound) (hgone : D.row? m.rootTable k = none) {ext : Option String}
    (hext : Format.IsSuffix ext) :
    (site.respond D (.ofAddress "GET" (top.address [toString k] ext) "")).2.status = 404 := by
  obtain ⟨htmem, -⟩ := h.serves.exposed.presents_of_typeOf hm ht
  obtain ⟨hname, hchars⟩ := he.plural t htmem
  have hpath : (Request.ofAddress "GET" (top.address [toString k] ext) "").path =
      t.address (toString k).toList ext := by
    rw [htop.address_eq]
    exact ResourceType.path_ofAddress hname (he.separates.slash t htmem) hchars hlow hext _ _
  obtain ⟨-, -, hstatus⟩ := respond_of_answer (Act.ends_answer_missing hD h.serves h.exposes
    he.separates hm ht hlow hhigh hgone hext rfl hpath)
  exact hstatus

/-- A request to delete at the address of a row reaches the record of the row. -/
theorem exists_reaches (hsep : site.service.Separates) {m : Model} (hm : site.catalog.Fills m)
    {t : ResourceType} (ht : site.service.registry.typeOf? m.recordClass = some t)
    (hopen : t.isAbstract = false) {k : Int} {row : Row} (hrow : D.row? m.rootTable k = some row)
    {ext : Option String} (hext : Format.IsSuffix ext) {request : Request}
    (hmethod : request.method = "DELETE")
    (hpath : request.path = t.address (toString k).toList ext) :
    ∃ scope y, site.service.Reaches request scope y ∧ y.suffix = ext ∧
      site.service.LeadsTo site.catalog D scope y.params t m k row := by
  obtain ⟨htmem, -⟩ := h.serves.exposed.presents_of_typeOf hm.mem ht
  obtain ⟨hlow, -⟩ := hD.number_range hrow
  have hchosen := exists_chosen?_delete h.exposes hsep htmem (Act.isId_toString (by omega))
    hext.isExt hopen hmethod hpath
  rw [String.ofList_toList] at hchosen
  obtain ⟨p, x, q, hchosen, htarget, -, hscope⟩ := hchosen
  exact ⟨_, _, ⟨p, x, hchosen, htarget, hscope⟩, rfl, leadsTo_of_row h.serves hD hm ht hrow q⟩

/-- A request to delete a record to which another one is bound is answered with a conflict. -/
theorem status_bound {request : Request} (hmethod : request.method = "DELETE") {scope : Scope}
    {y : Match} (hreaches : site.service.Reaches request scope y)
    (hsuffix : Format.IsSuffix y.suffix) {t : ResourceType} {m : Model} {k : Int} {row : Row}
    (hleads : site.service.LeadsTo site.catalog D scope y.params t m k row)
    (hpass : t.Passes site.service.rules .destroy (Row.get row))
    (hflat : site.catalog.isFlat m = true) (hbinds : site.catalog.Binds D m.rootTable k) :
    (site.respond D request).2.status = 409 := by
  obtain ⟨-, -, hstatus⟩ := respond_of_answer (Act.ends_answer_bound hD h.serves h.exposes hmethod
    hreaches hsuffix hleads hpass hflat hbinds)
  exact hstatus

end Site

end Hypermedia
