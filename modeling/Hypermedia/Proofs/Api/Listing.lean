import Hypermedia.Proofs.Api.Belonging
import Hypermedia.Proofs.Api.Branches

/-!
# What relationships lead to can be read

Whoever asks for what a relationship to many of a stored record leads to gets links to the rows of
the members (`Site.respond_lists`), and whoever asks for what a relationship to one leads to gets
the full form of its row (`Site.respond_owner`). Where a relationship to many is mirrored by a link
of the members, the rows are those that have the number of the owner in the column of the link
(`Catalog.Mirrors.mem_numbers`).
-/

namespace Hypermedia

/-! ## Members and owners -/

namespace Catalog.Mirrors

variable {c : Catalog} {n m : Model} {rel : Relationship} {back : Link} {column : String}
  (h : c.Mirrors n m rel back column) {D : Database}

include h

/-- The members of an owner are those that have its number in the column. -/
theorem mem_numbers (hp : c.Plain) (hD : c.Sound D) (hn : n ∈ c.models) {j : Int} {row : Row}
    {k : Int} : k ∈ (c.rowsAt D n j row rel.name).map Row.number ↔
      ∃ other, D.row? m.rootTable k = some other ∧ Row.get other column = .int j := by
  obtain ⟨l, hl, hkind, hm⟩ := h.members
  obtain ⟨m', hm', hspec⟩ := hp.linkSpec hn (List.mem_of_find?_eq_some hl)
  obtain rfl := Option.some.inj (hm.symm.trans hm')
  rw [Catalog.rowsAt_eq hl hm, Database.linkedRows, hkind]
  simp only [List.mem_map, Model.mem_inKeyOrder, List.mem_filter]
  constructor
  · rintro ⟨other, ⟨hother, hcell⟩, rfl⟩
    obtain ⟨i, hi, hrow⟩ := hD.exists_key hother
    have hnumber : other.number = i := by rw [Row.number, hi]
    refine ⟨other, hnumber ▸ hrow, ?_⟩
    rcases hD.reference_cell hp (model?_mem hm).1 hrow (hspec.members column hkind).2 with
      hnull | ⟨o, ho, -⟩
    · simp [hnull] at hcell
    · rw [ho, Value.int_beq, decide_eq_true_eq] at hcell
      rw [ho, hcell]
  · rintro ⟨other, hrow, hcell⟩
    obtain ⟨t, ht, hmem, hid⟩ := hD.row?_eq_some.1 hrow
    exact ⟨other, ⟨Database.mem_rowsOf.2 ⟨t, ht, hmem⟩, by simp [hcell]⟩, by rw [Row.number, hid]⟩

/-- The link of a member leads to the owner whose number it has. -/
theorem rowsAt_back {i : Int} {owner : Row} (howner : D.row? n.rootTable i = some owner) {k : Int}
    {row : Row} (hcell : Row.get row column = .int i) :
    c.rowsAt D m k row back.name = [owner] := by
  rw [Catalog.rowsAt_eq h.link h.target, Database.linkedRows, h.kind]
  simp only [hcell, howner, Option.toList_some]

end Catalog.Mirrors

/-! ## Addresses -/

/-- What is answered to whoever asks for a collection: links to these members, in some format. -/
structure Service.Lists (s : Service) (uri : String) (members : List String) (r : Response) :
    Prop where
  status : r.status = 200
  links : ∃ f : Format, Negotiation.text s.settings s.detail
    (Representation.ofMembers uri members).toValue f = .ok r.body

namespace ResourceType

theorem collectionUri_eq (s : Service) (t : ResourceType) (k : Int) (name : String)
    (ext : Option String) : t.collectionUri (s.writer ext) k name =
      s.root ++ String.ofList (t.branchAddress (toString k).toList name ext) := by
  have hspelled : t.collectionUri (s.writer ext) k name =
      s.root ++ "/" ++ t.pluralName ++ "" ++ "/" ++ toString k ++ "" ++ "/" ++ name ++
        Naming.formatSuffix ext := rfl
  rw [hspelled, ← String.toList_inj]
  simp [branchAddress]

/-- The addresses of entities of different numbers differ. -/
theorem entityUri_inj {t : ResourceType} {w : Renderer} {j k : Int} (hj : 0 ≤ j)
    (hj' : j < storeIntegerBound) (hk : 0 ≤ k) (hk' : k < storeIntegerBound)
    (h : t.entityUri w j = t.entityUri w k) : j = k := by
  have hspelled : ∀ k : Int, t.entityUri w k = t.uri w.root none ++ "/" ++ toString k ++
    Naming.formatSuffix w.ext := fun _ => rfl
  rw [hspelled, hspelled, ← String.toList_inj] at h
  simp only [String.toList_append, List.append_assoc, List.append_cancel_left_eq,
    List.append_cancel_right_eq, String.toList_inj] at h
  have hread := Conversion.toInt_toString hj hj'
  rw [h, Conversion.toInt_toString hk hk'] at hread
  exact (Except.ok.inj hread).symm

end ResourceType

/-! ## Answering with what a relationship leads to -/

namespace Act

open Service

section

variable {s : Service} {c : Catalog} {D : Database} (hD : c.Sound D) (h : s.Serves c) {m : Model}
  (hm : c.Fills m) {t : ResourceType} (ht : s.registry.typeOf? m.recordClass = some t) {k : Int}
  {row : Row} (hrow : D.row? m.rootTable k = some row) {rel : Relationship}
  (hrel : rel ∈ t.relationships) {l : Link} (hl : m.link? rel.name = some l) {n : Model}
  (hn : c.model? l.target = some n)

include hD h hm ht hrow hrel hl hn

/-- The collection that a relationship to many of a stored record leads to. -/
theorem reads_members (hmany : rel.isMany = true) (declared : ResourceType) (p q : String)
    (readOnly : Bool) {u : Session} : Reads (c.Quiet D)
    ((Scope.relationship declared p readOnly (.type t q) rel).collection (s.graph c.store)
      [(q, .text (toString k))]) u (fun v x => ∃ e, e.type = t ∧ c.Known D v e.record m k row ∧
        x.base = .owner e ∧ x.name = rel.name ∧
          List.Forall₂ (c.TypedRow s.registry D v n) x.entities (c.rowsAt D m k row rel.name))
      False := by
  obtain ⟨hp, hx, -⟩ := h
  have hI := Catalog.Quiet.reading hp hD
  obtain ⟨-, hpresents⟩ := hx.presents_of_typeOf hm.mem ht
  refine (reads_storedEntity hI (fun _ h => h) hp hD hx hm ht hrow q).bind fun e v _ _ he => ?_
  obtain ⟨htype, htyped⟩ := he
  refine (reads_relatedMany hI (fun _ h => h) hp hD hx htyped.toKnown hpresents hrel hmany).imp
    (fun w x _ hvw hx' => ?_) id
  obtain ⟨hbase, hname, l', n', hl', hn', hrows⟩ := hx'
  obtain rfl := Option.some.inj (hl.symm.trans hl')
  obtain rfl := Option.some.inj (hn.symm.trans hn')
  exact ⟨e, htype, htyped.toKnown.mono hvw, hbase, hname, hrows⟩

/-- The entity that a relationship to one of a stored record leads to. -/
theorem reads_single (hone : rel.isMany = false) {other : Row} {j : Int}
    (hother : c.rowsAt D m k row rel.name = [other]) (hj : Row.get other "id" = .int j)
    (declared : ResourceType) (p q : String) {u : Session} : Reads (c.Quiet D)
    ((Scope.singular declared p (.type t q) rel).entity (s.graph c.store)
      [(q, .text (toString k))]) u (fun v e => c.Typed s.registry D v e n j other) False := by
  obtain ⟨hp, hx, -⟩ := h
  have hI := Catalog.Quiet.reading hp hD
  obtain ⟨-, hpresents⟩ := hx.presents_of_typeOf hm.mem ht
  refine (reads_storedEntity hI (fun _ h => h) hp hD hx hm ht hrow q).bind fun e v _ _ he => ?_
  refine (reads_relatedOne hI (fun _ h => h) hp hD hx he.2.toKnown hpresents hrel hone).bind
    fun o w _ _ ho => ?_
  obtain ⟨l', n', hl', hn', hfound⟩ := ho
  obtain rfl := Option.some.inj (hl.symm.trans hl')
  obtain rfl := Option.some.inj (hn.symm.trans hn')
  rw [hother, List.head?_cons] at hfound
  obtain ⟨i, hi, htyped⟩ := hfound
  obtain rfl := Value.int.inj (hi.symm.trans hj)
  exact reads_pure fun _ => htyped

variable {t' : ResourceType} (ht' : s.registry.typeOf? n.recordClass = some t')
  {ext : Option String} (hext : Format.IsSuffix ext)

include ht' hext

/-- What a relationship to many of a stored record leads to is shown by links to the rows. -/
theorem ends_showMembers (hmany : rel.isMany = true) (declared : ResourceType) (p q : String)
    (readOnly : Bool) : Ends
    (s.showCollection c.store (.relationship declared p readOnly (.type t q) rel)
      { params := [(q, .text (toString k))], suffix := ext })
    (.start D) (fun r _ => s.Replies ext
      (.ofMembers (t.collectionUri (s.writer ext) k rel.name)
        (((c.rowsAt D m k row rel.name).map Row.number).map (t'.entityUri (s.writer ext))))
      200 [] r) fun _ _ => False := by
  obtain ⟨format, hformat⟩ : ∃ v, Negotiation.choose s.settings ext = .ok v :=
    Negotiation.exists_choose hext
  unfold showCollection Service.format
  rw [hformat, monadOfExcept_eq, ofExcept_ok, pure_bind]
  refine (reads_members hD h hm ht hrow hrel hl hn hmany declared p q readOnly).ends_bind
    (Catalog.quiet_start D) (fun x u hu _ hx => ?_) fun _ _ _ h => h
  obtain ⟨e, rfl, hknown, hbase, hname, hrows⟩ := hx
  refine (reads_listing (Catalog.Quiet.reading h.plain hD) (fun _ h => h) h.plain hbase hknown ht'
    hrows (s.writer ext)).ends_bind hu (fun body v _ _ hbody => ?_) fun _ _ _ h => h
  rw [hbody, hname]
  have hcount := hD.length_rowsAt_le m k row rel.name
  exact (ends_reply h.settings hformat rfl
    (Representation.exists_document_ofMembers _ (by simpa using hcount) _) (by decide) []).imp
      (fun _ _ hr => hr.2.2) fun _ _ h => h

/-- What a relationship to one of a stored record leads to is shown in full. -/
theorem ends_showSingle (hone : rel.isMany = false) {other : Row} {j : Int}
    (hother : c.rowsAt D m k row rel.name = [other]) (hj : Row.get other "id" = .int j)
    (declared : ResourceType) (p q : String) : Ends
    (s.showEntity c.store (.singular declared p (.type t q) rel)
      { params := [(q, .text (toString k))], suffix := ext })
    (.start D) (fun r _ => s.Replies ext
      (c.fullForm s.registry D (s.writer ext) t' n j other) 200 [] r) fun _ _ => False :=
  (ends_showEntity_of hD h hext ht' (reads_single hD h hm ht hrow hrel hl hn hone hother hj
    declared p q)).imp (fun _ _ hr => hr.2) fun _ _ h => h

end

/-! ## From the handlers to all requests -/

section

variable {s : Service} {c : Catalog} {D : Database} (h : s.Exposes) (hs : s.Separates)
  (hr : s.registry.NamesReadable) {t : ResourceType} (ht : t ∈ s.registry.types)
  {rel : Relationship} (hrel : rel ∈ t.readableRelationships) {k : Int} (hlow : 0 ≤ k)
  {ext : Option String} (hext : Format.IsSuffix ext)
  (hnames : t.fieldNames.Nodup)

include h hs hr ht hrel hlow hext hnames

/-- Whoever asks for what a relationship leads to is answered by a route of this relationship. -/
theorem ends_answer_branch {x₀ : Route} (hx₀ : x₀ ∈ s.routes.routes) (hbranch : x₀.IsBranch t rel)
    {request : Request} (hmethod : request.method = "GET")
    (hpath : request.path = t.branchAddress (toString k).toList rel.name ext)
    {Q : Response → Prop} (hheaders : ∀ r allowed,
      Q r → Q { r with headers := r.headers ++ s.originHeaders allowed })
    (hshow : ∀ x : Route, x.IsBranch t rel → Ends (s.atRoute c.store x .get request
        { params := [(t.idParam, .text (toString k))], suffix := ext }) (.start D)
      (fun r _ => Q r) fun _ _ => False) :
    Ends (s.answer c.store request) (.start D) (fun r _ => Q r) fun _ _ => False := by
  obtain ⟨p, x, hchosen, htarget, hx⟩ := exists_chosen?_branch h hs hr ht hrel
    (isId_toString hlow) hext.isExt hnames hx₀ hbranch hmethod hpath
  rw [String.ofList_toList] at hchosen
  refine ends_answer_at h (by rw [Request.isHead, hmethod]; decide) (by rw [hmethod]; decide)
    hchosen ?_
  rw [hmethod, atPlace, htarget]
  exact (hshow x hx).imp (fun r _ hr allowed => hheaders r allowed hr) fun _ _ h => h.elim

end

end Act

/-! ## Answers of sites -/

namespace Site

variable {site : Site} (h : site.Stands) (hsep : site.service.Separates)
  (hr : site.service.registry.NamesReadable) {D : Database} (hD : site.catalog.Sound D) {m : Model}
  (hm : site.catalog.Fills m) {t : ResourceType}
  (ht : site.service.registry.typeOf? m.recordClass = some t) {k : Int} {row : Row}
  (hrow : D.row? m.rootTable k = some row) {rel : Relationship}
  (hrel : rel ∈ t.readableRelationships) {ext : Option String} (hext : Format.IsSuffix ext)
  (hnames : t.fieldNames.Nodup) {x : Route} (hx : x ∈ site.service.routes.routes)
  (hbranch : x.IsBranch t rel) {request : Request} (hmethod : request.method = "GET")
  (hpath : request.path = t.branchAddress (toString k).toList rel.name ext)

include h hsep hr hD hm ht hrow hrel hext hnames hx hbranch hmethod hpath

/-- What all routes of the relationship answer is answered. -/
theorem respond_branch {Q : Response → Prop} (hheaders : ∀ r allowed, Q r →
      Q { r with headers := r.headers ++ site.service.originHeaders allowed })
    (hshow : ∀ y : Route, y.IsBranch t rel → Act.Ends
      (site.service.atRoute site.catalog.store y .get request
        { params := [(t.idParam, .text (toString k))], suffix := ext }) (.start D)
      (fun r _ => Q r) fun _ _ => False) : Q (site.respond D request).2 := by
  obtain ⟨htmem, -⟩ := h.serves.exposed.presents_of_typeOf hm.mem ht
  obtain ⟨hlow, -⟩ := hD.number_range hrow
  obtain ⟨-, -, hanswer⟩ := respond_of_answer (Act.ends_answer_branch h.exposes hsep hr htmem hrel
    (by omega) hext hnames hx hbranch hmethod hpath hheaders hshow)
  exact hanswer

variable {l : Link} (hl : m.link? rel.name = some l) {n : Model}
  (hn : site.catalog.model? l.target = some n) {t' : ResourceType}
  (ht' : site.service.registry.typeOf? n.recordClass = some t')

include hl hn ht'

/-- Whoever asks for what a relationship to many of a row leads to gets links to the rows. -/
theorem respond_lists (hmany : rel.isMany = true) : site.service.Lists
    (site.service.root ++ String.ofList request.path)
    (((site.catalog.rowsAt D m k row rel.name).map Row.number).map
      (t'.entityUri (site.service.writer ext)))
    (site.respond D request).2 := by
  rw [hpath, ← ResourceType.collectionUri_eq]
  refine respond_branch h hsep hr hD hm ht hrow hrel hext hnames hx hbranch hmethod hpath
    (fun _ _ hr => ⟨hr.status, hr.links⟩) fun y hy => ?_
  obtain ⟨hkind, target, p, hscope⟩ := hy.many hmany
  unfold Service.atRoute
  rw [hscope]
  dsimp only
  rw [if_pos hkind]
  refine (Act.ends_showMembers hD h.serves hm ht hrow (List.mem_filter.1 hrel).1 hl hn ht' hext
    hmany target p t.idParam false).imp (fun r _ hr => ⟨hr.status, ?_⟩) fun _ _ h => h
  obtain ⟨-, f, -, -, htext⟩ := hr.body
  exact ⟨f, htext⟩

/-- Whoever asks for what a relationship to one of a row leads to gets the full form of its row. -/
theorem respond_single (hone : rel.isMany = false) {other : Row} {j : Int}
    (hother : site.catalog.rowsAt D m k row rel.name = [other])
    (hj : Row.get other "id" = .int j) : site.service.Shows t'
      (t'.entityUri (site.service.writer ext) j) other (site.respond D request).2 := by
  refine respond_branch h hsep hr hD hm ht hrow hrel hext hnames hx hbranch hmethod hpath
    (fun _ _ hr => ⟨hr.status, hr.full⟩) fun y hy => ?_
  obtain ⟨hkind, target, hscope⟩ := hy.one hone
  unfold Service.atRoute
  rw [hscope]
  dsimp only
  rw [if_neg (by rw [hkind]; decide)]
  refine (Act.ends_showSingle hD h.serves hm ht hrow (List.mem_filter.1 hrel).1 hl hn ht' hext hone
    hother hj target t.idParam t.idParam).imp (fun r _ hr => ⟨hr.status, ?_⟩) fun _ _ h => h
  obtain ⟨-, f, -, -, htext⟩ := hr.body
  exact ⟨_, f, site.catalog.isFull_fullForm _ D _ t' n j other, htext⟩

end Site

end Hypermedia
