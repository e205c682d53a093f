import Hypermedia.Proofs.Api.Answering
import Hypermedia.Proofs.Api.Locating
import Hypermedia.Proofs.Number.Spelled

/-!
# Stored records can be read

A model whose records have all rows of its table fills it (`Catalog.Fills`). Whoever asks for the
address of such a row gets its full form in the format of the suffix (`Site.respond_stored`):
the address is read by the route to the entities of the type, the id in it is the key of the row,
and the full form of a stored record is shown without a fault.
-/

namespace Hypermedia

namespace Catalog

variable {c : Catalog} {D : Database} {m : Model}

/-- All rows of the table of the model are those of its records. -/
structure Fills (c : Catalog) (m : Model) : Prop where
  mem : m ∈ c.models
  only : ∀ n ∈ c.models, n.rootTable = m.rootTable → n.isBuilt = true → n.name = m.name
  self : m.extends_ m.name = true

theorem Fills.eq (hp : c.Plain) (h : c.Fills m) {n : Model} (hn : n ∈ c.models)
    (hroot : n.rootTable = m.rootTable) (hbuilt : n.isBuilt = true) : n = m :=
  List.inj_on_of_nodup_map hp.model_names hn h.mem (h.only n hn hroot hbuilt)

/-- The rows of the table are read as rows of the model. -/
theorem Fills.modelOfRow (hp : c.Plain) (h : c.Fills m) {t : Table} {row : Row}
    (hrow : c.SoundRow D t row) (hname : m.rootTable = t.name) : c.modelOfRow m row = .ok m := by
  obtain ⟨n, hn, hmodel, hroot, hbuilt⟩ := hrow.kind m h.mem hname
  rwa [h.eq hp hn (hroot.trans hname.symm) hbuilt] at hmodel

/-- A row that is read as one of a model has its identity, where rows have one. -/
theorem identity_of_modelOfRow {row : Row} (h : c.modelOfRow m row = .ok m) {column : String}
    (hk : m.discriminator = some column) :
    (m.identity.map Value.text == some (Row.get row column)) = true := by
  simp only [modelOfRow, hk] at h
  split at h
  · next x hx =>
    cases h
    have hfound := List.find?_some hx
    simp only [Bool.and_eq_true] at hfound
    exact hfound.2
  · cases h

theorem Fills.isKind (hp : c.Plain) (h : c.Fills m) {t : Table} {row : Row}
    (hrow : c.SoundRow D t row) (hname : m.rootTable = t.name) : c.isKind m row = true := by
  unfold Catalog.isKind
  split
  · next column _ hk =>
    exact List.any_eq_true.2 ⟨m, List.mem_filter.2 ⟨h.mem, h.self⟩,
      identity_of_modelOfRow (h.modelOfRow hp hrow hname) hk⟩
  · rfl

/-- The rows of the table have the identity of the model. -/
theorem Fills.identity_eq (hp : c.Plain) (h : c.Fills m) {t : Table} {row : Row}
    (hrow : c.SoundRow D t row) (hname : m.rootTable = t.name) {column i : String}
    (hk : m.discriminator = some column) (hi : m.identity = some i) :
    Row.get row column = .text i := by
  have hidentity := identity_of_modelOfRow (h.modelOfRow hp hrow hname) hk
  rw [hi] at hidentity
  exact Value.text_beq_eq hidentity

/-- A record of the table of the model is one of the model. -/
theorem Fills.known (hp : c.Plain) (h : c.Fills m) {u : Session} (hu : c.Drafts D u) {r : Ref}
    {k : Int} (hr : u.Holds r m.rootTable k) {row : Row} (hrow : D.row? m.rootTable k = some row) :
    c.Known D u r m k row := by
  obtain ⟨e, he, rfl, hst, hroot, hk⟩ := hr
  have hdraft := hu.draft e he
  obtain rfl := h.eq hp hdraft.model hroot hdraft.built
  exact ⟨h.mem, hdraft.name, hdraft.built, ⟨e, he, rfl, hst, rfl, hk⟩, hrow⟩

/-- The number of a row is read from its digits as the key of the row. -/
theorem keyOf?_toString (hp : c.Plain) (hm : m ∈ c.models) {k : Int} (hlow : 0 ≤ k)
    (hhigh : k < storeIntegerBound) :
    Act.keyOf? c m (.text (toString k)) = .ok (some [.int k]) := by
  obtain ⟨x, hx, htype⟩ : ∃ x, m.keyColumns = [x] ∧ x.type = .integer := by
    have htypes := hp.keyTypes m hm
    obtain ⟨x, hx, htype⟩ := List.map_eq_singleton_iff.1 htypes
    exact ⟨x, hx, htype⟩
  have hparse : x.type.parse c.hasRoom x.name (.text (toString k)) = .ok (.int k) := by
    rw [htype, ColumnType.parse, if_neg (by simp [Value.isNull, ColumnType.holds]),
      ColumnType.convert, Conversion.toInt_toString hlow hhigh]
    rfl
  simp only [Act.keyOf?, Act.keyParts, hx, List.length_singleton, Nat.le_refl, if_true,
    List.zip_cons_cons, List.zip_nil_left, Act.keyValues, hparse]
  rfl

end Catalog

/-! ## Formats that can be asked for -/

/-- The suffix is nothing or the name of a format. -/
def Format.IsSuffix (ext : Option String) : Prop := ∀ e ∈ ext, (ofName? e).isSome = true

/-- There are two formats. -/
theorem Format.IsSuffix.eq {ext : Option String} (h : IsSuffix ext) :
    ∀ e ∈ ext, e = Format.json.name ∨ e = Format.page.name := by
  intro e he
  have hsome := h e he
  unfold ofName? at hsome
  split at hsome
  · next h => exact Or.inl (eq_of_beq h)
  · split at hsome
    · next h => exact Or.inr (eq_of_beq h)
    · cases hsome

theorem Format.IsSuffix.isExt {ext : Option String} (h : IsSuffix ext) : ∀ e ∈ ext, IsExt e := by
  intro e he
  rcases h.eq e he with rfl | rfl <;> exact ⟨by decide, by decide⟩

theorem Negotiation.exists_choose {settings : Settings} {ext : Option String}
    (h : Format.IsSuffix ext) : ∃ v, choose settings ext = .ok v := by
  cases ext with
  | none => exact ⟨_, rfl⟩
  | some e => exact ⟨.text e, by rw [choose, if_pos (h e rfl)]⟩

/-- The address in a full form is the one that is read, below the root of the service. -/
theorem ResourceType.entityUri_eq (s : Service) (t : ResourceType) (k : Int)
    (ext : Option String) : t.entityUri (s.writer ext) k =
      s.root ++ String.ofList (t.address (toString k).toList ext) := by
  have hspelled : t.entityUri (s.writer ext) k =
      s.root ++ "/" ++ t.pluralName ++ "" ++ "/" ++ toString k ++ Naming.formatSuffix ext := rfl
  rw [hspelled, ← String.toList_inj]
  simp [address]

/-- What is answered to whoever asks for a row: its full form, in some format. -/
structure Service.Shows (s : Service) (t : ResourceType) (uri : String) (row : Row)
    (r : Response) : Prop where
  status : r.status = 200
  full : ∃ (x : Representation) (f : Format), x.IsFull t uri (Row.get row) ∧
    Negotiation.text s.settings s.detail x.toValue f = .ok r.body

namespace Act

open Service

variable {s : Service} {c : Catalog} {D : Database}

/-- The entity under the key of a row is that of its record. -/
theorem reads_storedEntity {I : Session → Prop} (hI : c.Reading D I)
    (hq : ∀ s, I s → c.Quiet D s) (hp : c.Plain) (hD : c.Sound D) {reg : Registry} {book : RuleBook}
    (hx : c.Exposed reg book) {m : Model} (hm : c.Fills m) {t : ResourceType}
    (ht : reg.typeOf? m.recordClass = some t) {k : Int} {row : Row}
    (hrow : D.row? m.rootTable k = some row) {u : Session} (q : String) :
    Reads I (Scope.entity (entitiesOf c reg book).graph [(q, .text (toString k))] (.type t q)) u
      (fun v e => e.type = t ∧ c.Typed reg D v e m k row) False := by
  obtain ⟨-, hpresents⟩ := hx.presents_of_typeOf hm.mem ht
  obtain ⟨x, hx', hmem, -⟩ := hD.row?_eq_some.1 hrow
  obtain ⟨hxD, hxname⟩ := Database.table_mem hx'
  obtain ⟨hlow, hhigh⟩ := hD.number_range hrow
  have hkey := Catalog.keyOf?_toString hp hm.mem (by omega) hhigh
  unfold Scope.entity
  have hidOf : Scope.idOf [(q, .text (toString k))] q = .ok (.text (toString k)) := by
    simp [Scope.idOf]
  rw [hidOf, monadOfExcept_eq, ofExcept_ok, pure_bind]
  have hlookup : Reads I ((entitiesOf c reg book).graph.lookup t (.text (toString k))) u
      (fun v o => ∃ e, o = some e ∧ e.type = t ∧ c.Typed reg D v e m k row) False := by
    refine ((reads_lookup hI hp hD t _).imp (fun _ _ _ _ h => h) fun hmissing => ?_).bind
      fun o v hv _ hlooked => reads_pure fun _ => ?_
    · obtain ⟨vs, hvs, hlarge⟩ := hmissing m _ hpresents.model hkey
      obtain rfl := Option.some.inj hvs
      exact absurd ((hlarge.missing hD k rfl).symm.trans hrow) (by simp)
    · obtain ⟨m', hm', -, hfound, -⟩ := hlooked
      obtain rfl := Option.some.inj (hpresents.model.symm.trans hm')
      have hfound := hfound _ hkey
      obtain ⟨r, rfl⟩ := Option.isSome_iff_exists.1
        (hfound.isSome k row rfl hrow (hm.isKind hp (hD.row x hxD row hmem) hxname.symm))
      obtain ⟨i, hholds, hi⟩ := hfound.holds r rfl
      obtain rfl := hi k rfl
      have htyped := (hm.known hp (hq v hv).toDrafts hholds hrow).typed hp hx t
      exact ⟨_, rfl, Option.some.inj (htyped.type.symm.trans ht), htyped⟩
  refine hlookup.bind fun o v _ _ hlooked => ?_
  obtain ⟨e, rfl, htype, htyped⟩ := hlooked
  exact reads_pure fun _ => ⟨htype, htyped⟩

/-! ## Answering with a stored record -/

/-- A scope that means the entity of a row shows it in full. -/
theorem ends_showEntity_of (hD : c.Sound D) (h : s.Serves c) {scope : Scope} {x : Match}
    (hext : Format.IsSuffix x.suffix) {m : Model} {t : ResourceType}
    (ht : s.registry.typeOf? m.recordClass = some t) {k : Int} {row : Row}
    (hread : Reads (c.Quiet D) (scope.entity (s.graph c.store) x.params) (.start D)
      (fun u e => c.Typed s.registry D u e m k row) False) :
    Ends (s.showEntity c.store scope x) (.start D) (fun r u => u.committed = D ∧
      s.Replies x.suffix (c.fullForm s.registry D (s.writer x.suffix) t m k row) 200 [] r)
    fun _ _ => False := by
  obtain ⟨hp, hx, hsettings, -⟩ := h
  obtain ⟨format, hformat⟩ : ∃ v, Negotiation.choose s.settings x.suffix = .ok v :=
    Negotiation.exists_choose hext
  unfold showEntity Service.format
  rw [hformat, monadOfExcept_eq, ofExcept_ok, pure_bind]
  refine hread.ends_bind (Catalog.quiet_start D) (fun e u hu _ he => ?_) fun _ _ _ h => h
  obtain rfl := Option.some.inj (ht.symm.trans he.type)
  obtain ⟨-, hpresents⟩ := hx.presents_of_typeOf he.mem ht
  exact (ends_shown hp hx hsettings hD hu he (hpresents.passes_default _) hformat (by decide)
    []).imp (fun r w hr => ⟨hr.1.committed, hr.2.2⟩) fun _ _ h => h

variable (hD : c.Sound D) (h : s.Serves c) {m : Model} (hm : c.Fills m) {t : ResourceType}
  (ht : s.registry.typeOf? m.recordClass = some t) {k : Int} {row : Row}
  (hrow : D.row? m.rootTable k = some row) {ext : Option String} (hext : Format.IsSuffix ext)

include hD h hm ht hrow hext

theorem ends_showStored (q : String) : Ends
    (s.showEntity c.store (.type t q) { params := [(q, .text (toString k))], suffix := ext })
    (.start D) (fun r u => u.committed = D ∧
      s.Replies ext (c.fullForm s.registry D (s.writer ext) t m k row) 200 [] r)
    fun _ _ => False := by
  exact ends_showEntity_of hD h hext ht
    ((reads_storedEntity (Catalog.Quiet.reading h.plain hD) (fun _ h => h) h.plain hD h.exposed hm
      ht hrow q).imp (fun _ _ _ _ he => he.2) id)

omit hD h hm ht hrow hext in
/-- The digits of a number are read as one id. -/
theorem isId_toString (hlow : 0 ≤ k) : IsId (toString k).toList := by
  obtain ⟨n, rfl⟩ := Int.eq_ofNat_of_zero_le hlow
  rw [toList_toString_natCast]
  refine ⟨Nat.toDigits_ne_nil, fun c hc => ?_⟩
  have hdigit := Nat.isDigit_of_mem_toDigits (by decide) (by decide) hc
  unfold Pattern.isIdChar
  by_contra hno
  obtain rfl | rfl : c = '/' ∨ c = '.' := by simpa [or_iff_not_imp_left] using hno
  all_goals exact absurd hdigit (by decide)

omit hD h hm ht hrow in
/-- Whoever asks for the address of an entity is shown the one under the id in it. -/
theorem ends_answer_address (hs : s.Exposes) (hsep : s.Separates) (ht : t ∈ s.registry.types)
    (hlow : 0 ≤ k) {request : Request} (hmethod : request.method = "GET")
    (hpath : request.path = t.address (toString k).toList ext) {Q : Response → Session → Prop}
    (hshow : ∀ q, Ends (s.showEntity c.store (.type t q)
        { params := [(q, .text (toString k))], suffix := ext }) (.start D)
      (fun r u => ∀ allowed, Q { r with headers := r.headers ++ s.originHeaders allowed } u)
      fun f u => Q (s.tell f ext []) u.rollback) :
    Ends (s.answer c.store request) (.start D) Q fun _ _ => False := by
  have hchosen := exists_chosen?_address hs hsep ht (isId_toString hlow) hext.isExt hmethod hpath
  rw [String.ofList_toList] at hchosen
  obtain ⟨p, x, q, hchosen, htarget, hkind, hscope⟩ := hchosen
  have hplace : s.atPlace c.store p (methodOf request.method) request
      { params := [(q, .text (toString k))], suffix := ext } =
        s.showEntity c.store (.type t q)
          { params := [(q, .text (toString k))], suffix := ext } := by
    rw [hmethod, atPlace, htarget]
    dsimp only
    unfold atRoute
    rw [hscope]
    exact if_neg (by rw [hkind]; decide)
  refine ends_answer_at hs (by rw [Request.isHead, hmethod]; decide) (by rw [hmethod]; decide)
    hchosen ?_
  rw [hplace]
  exact hshow q

/-- Whoever asks for the address of a row gets its full form, and nothing else decides on it. -/
theorem ends_answer_stored (hs : s.Exposes) (hsep : s.Separates) {request : Request}
    (hmethod : request.method = "GET")
    (hpath : request.path = t.address (toString k).toList ext) :
    Ends (s.answer c.store request) (.start D) (fun r u => u.committed = D ∧ r.status = 200 ∧
      Negotiation.IsText s.settings s.detail ext
        (c.fullForm s.registry D (s.writer ext) t m k row).toValue r.body)
      fun _ _ => False := by
  obtain ⟨htmem, -⟩ := h.exposed.presents_of_typeOf hm.mem ht
  obtain ⟨hlow, -⟩ := hD.number_range hrow
  exact ends_answer_address hext hs hsep htmem (by omega) hmethod hpath fun q =>
    (ends_showStored hD h hm ht hrow hext q).imp
      (fun r u hr _ => ⟨hr.1, hr.2.status, hr.2.body⟩) fun _ _ h => h.elim

end Act

namespace Site

section

variable {site : Site} (h : site.Stands) (hsep : site.service.Separates) {D : Database}
  (hD : site.catalog.Sound D) {m : Model} (hm : site.catalog.Fills m) {t : ResourceType}
  (ht : site.service.registry.typeOf? m.recordClass = some t) {k : Int} {row : Row}
  (hrow : D.row? m.rootTable k = some row) {ext : Option String} (hext : Format.IsSuffix ext)
  {request : Request} (hmethod : request.method = "GET")
  (hpath : request.path = t.address (toString k).toList ext)

include h hsep hD hm ht hrow hext hmethod hpath

/-- Whoever asks a site for the address of a stored row gets the text of its full form. -/
theorem respond_fullForm : (site.respond D request).2.status = 200 ∧
    Negotiation.IsText site.service.settings site.service.detail ext
      (site.catalog.fullForm site.service.registry D (site.service.writer ext) t m k row).toValue
      (site.respond D request).2.body := by
  obtain ⟨-, -, -, hanswer⟩ := respond_of_answer
    (Act.ends_answer_stored hD h.serves hm ht hrow hext h.exposes hsep hmethod hpath)
  exact hanswer

/-- The address in the full form is the one that was asked for. -/
theorem respond_stored : site.service.Shows t
    (site.service.root ++ String.ofList request.path) row (site.respond D request).2 := by
  have huri : t.entityUri (site.service.writer ext) k =
      site.service.root ++ String.ofList request.path := by
    rw [hpath, ResourceType.entityUri_eq]
  rw [← huri]
  obtain ⟨hstatus, -, f, -, -, htext⟩ :=
    respond_fullForm h hsep hD hm ht hrow hext hmethod hpath
  exact ⟨hstatus, _, f, site.catalog.isFull_fullForm _ D _ t m k row, htext⟩

end

end Site

end Hypermedia
