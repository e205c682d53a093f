import Hypermedia.Proofs.Api.Answering
import Hypermedia.Proofs.Graph.Refusing
import Hypermedia.Proofs.Session.Filling

/-!
# What requests for new records are answered

A request for a new record is answered with what is wrong with it, or with its full form
(`Act.ends_create_creates`). For that, what the payload gives to the properties of the record is
followed through the session: the draft has it (`Service.HasDraft`), what is written has it as the
store keeps it (`Service.Stows`), and the full form shows it and depends on what was stored alone
(`Service.Creates`). No other answer has the status of a new record
(`Site.creates_of_respond`).

The type of the record is that of the members at the address (`Service.memberType?`).
-/

namespace Hypermedia

/-- A payload gives something to a property that clients may write. It is made `w`, which is not
nothing and which the store keeps as `u`. -/
structure ResourceType.Gives (t : ResourceType) (m : Model) (hasRoom : Nat → Bool)
    (fields : List (String × Value)) (name : String) (w u : Value) : Prop where
  property : ∃ p ∈ t.writableProperties, p.name = name
  column : ∃ v x, Fields.get? name fields = some v ∧ m.column? name = some x ∧
    x.column.type.parse hasRoom name v = .ok w ∧ w.isNull = false ∧ x.column.type.store w = .ok u

/-- The type of the members of what a place leads to. -/
def Place.memberType? (p : Place Endpoint) : Option ResourceType :=
  match p.target with
  | .route x => x.scope.map Scope.memberType
  | .schema => none

namespace Service

/-- The answer shows a representation, in the format of a suffix, and tells its address. -/
structure Locates (s : Service) (suffix : Option String) (x : Representation) (uri : String)
    (r : Response) : Prop where
  header : r.headers.filter (fun h => h.1 == "Location") = [("Location", Text.uriText uri)]
  body : Negotiation.IsText s.settings s.detail suffix x.toValue r.body

variable {s : Service} {suffix : Option String} {x : Representation} {uri : String} {r : Response}

theorem Replies.locates {status : Nat}
    (h : s.Replies suffix x status [("Location", Text.uriText uri)] r) :
    s.Locates suffix x uri r := by
  have hname : ("Location".toLower != "content-type") = true := by decide +kernel
  refine ⟨?_, h.body⟩
  rw [h.headers]
  simp [hname]

/-- The headers for pages of other origins tell no address. -/
theorem Locates.append_originHeaders (h : s.Locates suffix x uri r) (allowed : String) :
    s.Locates suffix x uri { r with headers := r.headers ++ s.originHeaders allowed } := by
  have hnone : (s.originHeaders allowed).filter (fun h => h.1 == "Location") = [] := by
    unfold originHeaders
    cases s.origin <;> rfl
  refine ⟨?_, h.body⟩
  rw [List.filter_append, hnone, List.append_nil, h.header]

/-- The payload of a request gives something to a property of new members: it is made `w`, which
the store keeps as `u`. -/
def Asks (s : Service) (c : Catalog) (declared : ResourceType) (m : Model) (request : Request)
    (name : String) (w u : Value) : Prop :=
  ∃ fields, request.payload s.settings = .ok fields ∧ declared.Gives m c.hasRoom fields name w u

/-- A session of drafts in which a new record has what a request asks for. -/
def HasDraft (s : Service) (c : Catalog) (D : Database) (declared : ResourceType) (m : Model)
    (request : Request) (r : Ref) (t : Session) : Prop :=
  c.Edited D (fun _ => False) t ∧ c.Carrying D (r.number + 1)
    (Entry.Filled r fun name w => ∃ u, s.Asks c declared m request name w u) t

/-- A session that is writing, in which a new record has what a request asks for. -/
def Stows (s : Service) (c : Catalog) (declared : ResourceType) (m : Model) (request : Request)
    (r : Ref) (u v : Session) : Prop :=
  c.Saving u v ∧
    ∀ i : { i : String × Value × Value // s.Asks c declared m request i.1 i.2.1 i.2.2 },
      c.Filling r i.1.1 i.1.2.1 i.1.2.2 u v

/-- The answer shows a record of the database and tells its address; the row is like `G`. -/
def Introduces (s : Service) (c : Catalog) (db : Database) (m : Model) (suffix : Option String)
    (G : (String → Value) → Prop) (r : Response) : Prop :=
  ∃ t k row, s.registry.typeOf? m.recordClass = some t ∧ db.row? m.rootTable k = some row ∧
    s.Locates suffix (c.fullForm s.registry db (s.writer suffix) t m k row)
      (t.entityUri (s.writer suffix) k) r ∧ G (Row.get row)

theorem Introduces.append_originHeaders {c : Catalog} {db : Database} {m : Model}
    {G : (String → Value) → Prop} (h : s.Introduces c db m suffix G r) (allowed : String) :
    s.Introduces c db m suffix G { r with headers := r.headers ++ s.originHeaders allowed } := by
  obtain ⟨t, k, row, ht, hrow, hlocates, hgives⟩ := h
  exact ⟨t, k, row, ht, hrow, hlocates.append_originHeaders allowed, hgives⟩

/-- The answer shows a new record of a type that is in the database, with what the payload
gives. -/
def Creates (s : Service) (c : Catalog) (db : Database) (declared : ResourceType)
    (request : Request) (suffix : Option String) (r : Response) : Prop :=
  ∃ m t k row, declared ∈ s.registry.types ∧ c.Describes s.registry declared m ∧
    m.isBuilt = true ∧ s.registry.typeOf? m.recordClass = some t ∧
    db.row? m.rootTable k = some row ∧
    s.Locates suffix (c.fullForm s.registry db (s.writer suffix) t m k row)
      (t.entityUri (s.writer suffix) k) r ∧
    ∀ name w u, s.Asks c declared m request name w u → Row.get row name = u

theorem Creates.append_originHeaders {c : Catalog} {db : Database} {declared : ResourceType}
    {request : Request} (h : s.Creates c db declared request suffix r) (allowed : String) :
    s.Creates c db declared request suffix
      { r with headers := r.headers ++ s.originHeaders allowed } := by
  obtain ⟨m, t, k, row, hmem, hm, hbuilt, ht, hrow, hlocates, hgives⟩ := h
  exact ⟨m, t, k, row, hmem, hm, hbuilt, ht, hrow, hlocates.append_originHeaders allowed, hgives⟩

/-- An answer with the status of a new record shows one of this type, or what is wrong with it. -/
def ShowsNew (s : Service) (c : Catalog) (db : Database) (declared : Option ResourceType)
    (request : Request) (suffix : Option String) (r : Response) : Prop :=
  r.status = 201 → Negotiation.IsErrorText s.settings s.detail r.body ∨
    ∃ t, declared = some t ∧ s.Creates c db t request suffix r

/-- What reads the address of a request that is served. -/
def matchOf? (s : Service) (request : Request) : Option (Place Endpoint × Match) :=
  chosen? (Place.candidates s.places request.path) request

/-- The type of the members of the collection at the address of a request. -/
def memberType? (s : Service) (request : Request) : Option ResourceType :=
  (s.matchOf? request).bind fun found => found.1.memberType?

/-- The suffix of the address of a request. -/
def suffix? (s : Service) (request : Request) : Option String :=
  (s.matchOf? request).bind fun found => found.2.suffix

/-- What reads the address of a request for a new record takes such requests. -/
theorem post_mem_of_matchOf? {request : Request} (hmethod : request.method = "POST")
    {found : Place Endpoint × Match} (h : s.matchOf? request = some found) :
    found.1 ∈ s.places ∧ .post ∈ found.1.methods := by
  have hserved := List.find?_some h
  rw [hmethod] at hserved
  exact ⟨(Place.mem_candidates.1 (List.mem_of_find?_eq_some h)).1,
    Place.mem_methods_of_contains (y := .post) hserved⟩

/-- The suffix stands at the end of the path. -/
theorem isSuffix_of_suffix? {request : Request} {e : String}
    (h : s.suffix? request = some e) : '.' :: e.toList <:+ request.path := by
  obtain ⟨⟨p, y⟩, hchosen, he⟩ := Option.bind_eq_some_iff.1 h
  exact Place.isSuffix_of_match?
    (Place.mem_candidates.1 (List.mem_of_find?_eq_some hchosen)).2 he

end Service

/-- With a new record, a session like `P` can be stored. Writing it yields `W`, and then the row of
the record is like `G`. -/
structure Catalog.Storable (c : Catalog) (D : Database) (r : Ref) (P : Session → Prop)
    (W : Session → Session → Prop) (G : (String → Value) → Prop) : Prop where
  reading : c.Reading D P
  enrolling : c.Enrolling D P
  edited : ∀ u, P u → c.Edited D (fun _ => False) u
  yields : ∀ u, P u → (∃ z ∈ u.entries, z.ref = r ∧ z.isMember = true) → c.Yields u (W u)
  shown : ∀ u v, c.Persisted P W u r v → ∀ e ∈ v.entries, e.ref = r → e.key ≠ [] →
    G (e.shown v.db)

namespace Act

open Service

variable {s : Service} {c : Catalog} {D : Database}

/-- An entity that is known to be faulty is refused with the text of its errors. -/
theorem ends_refuse_faulty (hp : c.Plain) (hD : c.Sound D) {I : Session → Prop}
    (hI : c.Reading D I) {e : Entity Ref} {m : Model}
    (ht : c.Presents s.registry s.rules e.type m) (ha : e.type.AdmitsAll) {t : Session}
    (h : e.Faulty D t) (hs : I t) {x : Match} {format : Value}
    (hformat : Negotiation.choose s.settings x.suffix = .ok format) (status : Nat) :
    Ends (s.refuse c.store format e .create status x) t
      (fun r _ => Negotiation.IsErrorText s.settings s.detail r.body)
      fun _ u => u.committed = D := by
  unfold Service.refuse
  rw [ends_bind]
  refine (ends_entity_faulty hI hp hD ht ha h hs (s.writer x.suffix)).imp
    (fun body u h => ?_) fun _ _ h => (hI.drafts h).committed
  obtain ⟨hu, es, hbody⟩ := h
  have hcommitted : u.rollback.committed = D := (hI.drafts hu).committed
  change Ends (modify Session.rollback >>= fun _ => s.reply format body status []) u _ _
  rw [ends_bind, ends_modify, Service.reply, monadOfExcept_eq]
  cases hr : Negotiation.renderAs s.settings s.detail body.toValue format status [] with
  | error f => exact hcommitted
  | ok r =>
    obtain ⟨-, -, -, f, -, -, htext⟩ := Negotiation.renderAs_eq_ok hformat hr
    rw [hbody] at htext
    exact ⟨_, f, htext⟩

/-! ## New records -/

section

variable {declared : ResourceType} {m : Model} (hm : c.Describes s.registry declared m)
  {request : Request}

include hm

omit hm in
theorem editing_hasDraft (hp : c.Plain) (hD : c.Sound D) (r : Ref) :
    c.Editing D (s.HasDraft c D declared m request r) :=
  (Catalog.Edited.drafting hp hD (c.Opens s.registry)).toEditing.and
    (Catalog.Carrying.editing hp hD (Entry.stable_filled (Nat.lt_succ_self _) _))

/-- A new record that has what a request asks for is written with it. -/
theorem yields_stows (hp : c.Plain) (hD : c.Sound D) {u : Session} {r : Ref}
    (hr : r.model = m.name) (hu : s.HasDraft c D declared m request r u) :
    c.Yields u (s.Stows c declared m request r u) := by
  have hmodel : c.model? r.model = some m := hr ▸ hp.model?_eq (ofClass?_mem hm.model)
  have hdrafts := hu.1.toDrafts
  refine yields hp hdrafts ((hdrafts.writing hp).and_forall fun i => ?_)
    ⟨hdrafts.saving hD, fun i => ?_⟩
  · obtain ⟨fields, -, ⟨p, hp', hpname⟩, v, y, -, hy, -, hnull, hstore⟩ := i.2
    have hown := (hm.property p hp').2 y (hpname ▸ hy)
    have hrefers : y.column.refersTo = none := by
      simp only [Model.isOwn, Bool.not_eq_true', Bool.or_eq_false_iff] at hown
      simpa using hown.1.2
    exact Catalog.Filling.writing hp hdrafts hmodel hy hnull hstore hrefers
  · exact hdrafts.filling hD hu.2.carried ⟨_, i.2⟩ _

/-- A new record that has what a request asks for is stored with it. -/
theorem storable_hasDraft (hp : c.Plain) (hD : c.Sound D) {r : Ref} (hr : r.model = m.name) :
    c.Storable D r (s.HasDraft c D declared m request r) (s.Stows c declared m request r)
      fun get => ∀ name w u, s.Asks c declared m request name w u → get name = u where
  reading := (editing_hasDraft hp hD r).toReading
  enrolling := enrolling (editing_hasDraft hp hD r)
  edited := fun _ hu => hu.1
  yields := fun _ hu _ => yields_stows hm hp hD hr hu
  shown := fun _ _ hv _ he href hkey name w u hasks =>
    hv.shown_eq (fun _ _ _ hW => hW.2 ⟨(name, w, u), hasks⟩) he href hkey

/-- A new record that is built has what a request asks for. -/
theorem ends_build_asked (hp : c.Plain) (hD : c.Sound D) {I : Session → Prop}
    (hI : c.Drafting D (c.Opens s.registry) I) (hdeclared : declared ∈ s.registry.types)
    (hbuilt : m.isBuilt = true) {fields : List (String × Value)}
    (hfields : request.payload s.settings = .ok fields) {given : List (String × Given Ref)}
    (hmapped : Catalog.Mapped declared m fields given) {u : Session} (hu : I u) :
    Ends (build c declared given) u (fun r t => (I t ∧ c.Carrying D (r.number + 1)
      (Entry.Filled r fun name w => ∃ u, s.Asks c declared m request name w u) t) ∧
      r.model = m.name) fun _ t => t.committed = D := by
  refine ends_build_filled hI hp hD hm.model hbuilt (fun f hf => (hmapped.suits f hf).imp
    fun _ h => h.opens hdeclared hm) hmapped.names ?_ hu
  rintro name w ⟨u', fields', hfields', ⟨p, hp', rfl⟩, v, y, hv, hy, hparse, -⟩
  obtain rfl := Except.ok.inj (hfields.symm.trans hfields')
  obtain ⟨hlink, hown⟩ := hm.property p hp'
  exact ⟨v, hmapped.property p hp' v hv, hlink, y, hy, hown y hy, hparse⟩

omit hm in
/-- What is drafted for a request is a new record that has what the request asks for. -/
theorem ends_drafted_filled (hD : c.Sound D) (h : s.Serves c) {scope : Scope}
    (hscope : scope.Formed s.registry) (hm : c.Describes s.registry scope.memberType m)
    (hbuilt : m.isBuilt = true) (x : Match) :
    Ends (s.drafted c.store scope request x) (.start D) (fun e t =>
      s.HasDraft c D scope.memberType m request e.record t ∧ e.record.model = m.name ∧ ∃ errors,
        e = { (s.graph c.store).entity e.record scope.memberType with payloadErrors := errors })
      fun _ t => t.committed = D := by
  obtain ⟨hp, hx, -⟩ := h
  have hI := Catalog.Edited.drafting (H := fun _ => False) hp hD (c.Opens s.registry)
  exact (ends_drafted hp hD hx hscope hm hbuilt request x hI (Catalog.edited_start D)
    (editing_hasDraft hp hD) fun fields given u hfields hmapped hu =>
      ends_build_asked hm hp hD hI hscope.memberType_mem hbuilt hfields hmapped hu).imp
        (fun _ _ h => ⟨h.1.1, h.2⟩) fun _ _ h => h

omit hm in
/-- The answer with a record that was stored shows its row. -/
theorem ends_welcome_stored (h : s.Serves c) (hm : m ∈ c.models) {P : Session → Prop}
    {W : Session → Session → Prop} {G : (String → Value) → Prop} {u v : Session} {r : Ref}
    (hP : c.Storable D r P W G) (hr : r.model = m.name) (hv : c.Persisted P W u r v) {x : Match}
    {format : Value} (hformat : Negotiation.choose s.settings x.suffix = .ok format)
    {E : Fault → Session → Prop} :
    Ends (s.welcome c.store format ((s.graph c.store).entity r declared) x) v
      (fun a t => s.Introduces c t.committed m x.suffix G a) E := by
  have hp := h.plain
  obtain ⟨n, k, row, hknown⟩ := hv.quiet.known_of_stores hv.stored
  obtain rfl := List.inj_on_of_nodup_map hp.model_names hm hknown.mem (hr.symm.trans hknown.name)
  have htyped := hknown.typed hp h.exposed declared
  refine (ends_welcome h hv.sound hv.quiet htyped hformat).imp
    (fun a z hz => ?_) fun _ _ h => h
  obtain ⟨hquiet, -, hreplies⟩ := hz
  rw [hquiet.committed]
  obtain ⟨y, hy, href, -, hroot, hkey⟩ := hknown.holds
  have hshown := hP.shown u v hv y hy href (by simp [hkey])
  rw [funext (Entry.shown_eq hkey (hroot ▸ hknown.row))] at hshown
  exact ⟨_, k, row, htyped.type, hknown.row, hreplies.locates, hshown⟩

end

/-- What is drafted is stored if it can be, and then it is what the answer shows; or the answer is
the text of errors. -/
theorem ends_create_of (hD : c.Sound D) (h : s.Serves c) {scope : Scope} {m : Model}
    (hm : m ∈ c.models) {request : Request} {x : Match} {G : (String → Value) → Prop}
    (hdrafted : Ends (s.drafted c.store scope request x) (.start D) (fun e t =>
      (∃ P W, c.Storable D e.record P W G ∧ P t) ∧ e.record.model = m.name ∧ ∃ errors,
        e = { (s.graph c.store).entity e.record scope.memberType with payloadErrors := errors })
      fun _ t => t.committed = D) :
    Ends (s.create c.store scope request x) (.start D) (fun r t =>
      Negotiation.IsErrorText s.settings s.detail r.body ∨
        s.Introduces c t.committed m x.suffix G r)
      fun _ t => t.committed = D := by
  have hp := h.plain
  obtain ⟨t, htype, -⟩ := h.exposed.typeOf m hm
  obtain ⟨ht, hpresents⟩ := h.exposed.presents_of_typeOf hm htype
  have hadmits := h.admits t ht
  rw [create_eq]
  refine ends_prepared (fun _ _ h => h) hdrafted fun format e u hformat hu => ?_
  obtain ⟨⟨P, W, hP, hu⟩, hname, errors, he⟩ := hu
  have hetype : e.type = t := by
    rw [he]
    exact Catalog.type_entity hp hm hname htype scope.memberType
  have hmodel : c.model? e.record.model = some m := hname ▸ hp.model?_eq hm
  refine ends_judged hp hD (B := fun u => P u ∧ e.Faulty D u) (V := P) (fun _ _ h => h)
    ((ends_valid_faulty hP.reading hp hD hmodel (hetype ▸ hpresents) (hetype ▸ hadmits) hu).imp
      (fun _ _ h => ⟨fun hno => ⟨h.1, h.2 hno⟩, fun _ => h.1⟩)
      fun _ _ h => (hP.edited _ h).committed)
    (fun _ => id) hP.enrolling hP.edited hP.yields (fun u hu => ?refused) fun u v _ hv => ?shown
  case refused =>
    exact (ends_refuse_faulty hp hD hP.reading (hetype ▸ hpresents) (hetype ▸ hadmits) hu.2 hu.1
      hformat 201).imp (fun _ _ => Or.inl) fun _ _ h => h
  case shown =>
    exact (ends_welcome_stored h hm hP hname hv hformat).imp (fun _ _ => Or.inr) fun _ _ h => h

/-- A new record is stored with what the payload gives and answered with its full form, or the
answer is the text of errors. -/
theorem ends_create_creates (hD : c.Sound D) (h : s.Serves c) {scope : Scope}
    (hscope : scope.Formed s.registry) (hmutable : scope.isMutable = true) (request : Request)
    (x : Match) :
    Ends (s.create c.store scope request x) (.start D) (fun r t =>
      Negotiation.IsErrorText s.settings s.detail r.body ∨
        s.Creates c t.committed scope.memberType request x.suffix r)
      fun _ t => t.committed = D := by
  obtain ⟨m, hm⟩ := h.exposed.describes hscope.memberType_mem
  have hbuilt : m.isBuilt = true := hm.built (by simp_all [Scope.isMutable])
  refine (ends_create_of hD h (ofClass?_mem hm.model) ((ends_drafted_filled hD h hscope hm hbuilt
    x).imp (fun e t ht => ⟨⟨_, _, storable_hasDraft hm h.plain hD ht.2.1, ht.1⟩, ht.2⟩)
      fun _ _ h => h)).imp (fun r t hr => hr.imp_right fun hr => ?_) fun _ _ h => h
  obtain ⟨t', k, row, ht', hrow, hlocates, hgives⟩ := hr
  exact ⟨m, t', k, row, hscope.memberType_mem, hm, hbuilt, ht', hrow, hlocates, hgives⟩

/-! ## Answers with the status of a new record -/

theorem ends_atPlace_post (hD : c.Sound D) (h : s.Serves c) (hs : s.Exposes)
    {p : Place Endpoint} (hp : p ∈ s.places) (hpost : .post ∈ p.methods) (request : Request)
    (y : Match) : Ends (s.atPlace c.store p .post request y) (.start D)
      (fun r t => s.ShowsNew c t.committed p.memberType? request y.suffix r) fun _ _ => True := by
  refine ends_atPlace_of (fun r t _ hstatus hnew => by omega) (fun _ _ _ => trivial) h.plain hD hs
    hp (fun _ => hpost) request y fun act hact => ?_
  cases hact with
  | create htarget hscope hformed hmutable =>
    refine (ends_create_creates hD h hformed hmutable request y).imp
      (fun r t hr _ => hr.imp id fun hr => ⟨_, ?_, hr⟩) fun _ _ _ => trivial
    rw [Place.memberType?, htarget]
    exact congrArg (Option.map Scope.memberType) hscope

/-- A request for a new record that is answered with the status of one. -/
theorem ends_answer_post (hD : c.Sound D) (h : s.Serves c) (hs : s.Exposes) {request : Request}
    (hmethod : request.method = "POST") : Ends (s.answer c.store request) (.start D)
      (fun r t => s.ShowsNew c t.committed (s.memberType? request) request (s.suffix? request) r)
      fun _ _ => False := by
  have hhead : request.isHead = false := by rw [Request.isHead, hmethod]; decide
  cases hchosen : chosen? (Place.candidates s.places request.path) request with
  | none =>
    exact (ends_answer_unserved hs hchosen).imp (fun r t h hnew => by omega) fun _ _ h => h
  | some found =>
    obtain ⟨p, y⟩ := found
    have hmatch : s.matchOf? request = some (p, y) := hchosen
    obtain ⟨hp, hpost⟩ := post_mem_of_matchOf? hmethod hmatch
    have hmeans : methodOf request.method = .post := by rw [hmethod]; rfl
    refine ends_answer_at hs hhead (by rw [hmethod]; decide) hchosen ?_
    rw [hmeans, suffix?, memberType?, hmatch, Option.bind_some, Option.bind_some]
    refine (ends_atPlace_post hD h hs hp hpost request y).imp (fun r t hr _ hnew => ?_)
      fun f t _ hnew => ?told
    exact (hr hnew).imp id fun ⟨declared, hdeclared, hcreates⟩ =>
      ⟨declared, hdeclared, hcreates.append_originHeaders _⟩
    have hfault := le_status_tell (s := s) f y.suffix []
    omega

end Act

namespace Site

variable {site : Site} {D : Database}

/-- A request for a new record that is answered with the status of one, and not with errors, is
answered with the full form of a record that the database has after it. -/
theorem creates_of_respond (h : site.Stands) (hD : site.catalog.Sound D) {request : Request}
    (hmethod : request.method = "POST") (hstatus : (site.respond D request).2.status = 201)
    (herror : ¬Negotiation.IsErrorText site.service.settings site.service.detail
      (site.respond D request).2.body) :
    ∃ declared, site.service.memberType? request = some declared ∧
      site.service.Creates site.catalog (site.respond D request).1 declared request
        (site.service.suffix? request) (site.respond D request).2 := by
  obtain ⟨t, ht, hanswer⟩ :=
    respond_of_answer (Act.ends_answer_post hD h.serves h.exposes hmethod)
  exact ht ▸ (hanswer hstatus).resolve_left herror

end Site

end Hypermedia
