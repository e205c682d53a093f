import Hypermedia.Proofs.Api.Replying
import Hypermedia.Proofs.Graph.Admitting
import Hypermedia.Proofs.Route.Meaning
import Hypermedia.Proofs.Session.Framing

/-!
# What the methods leave

However a method ends, the database is sound afterwards, and it is the one from before if the
method failed or if its answer tells of a fault or of errors (`Service.Settles`). Reading keeps
the database in any case. A method that writes works on drafts up to the one step that commits;
after that step the answer is read from a session that has nothing to write, so nothing can fail
any more and the answer is a full form.

Creating changes nothing in the columns of the records that are there, apart from references,
and changing an entity only what the payload gives to its own properties (`Service.MayChange`).
-/

namespace Hypermedia

namespace Service

/-- How a method may leave the database: sound, with the defaults in sealed columns, and as it
was unless the answer accepts the request. -/
structure Settles (s : Service) (c : Catalog) (D : Database) (r : Response) (t : Session) :
    Prop where
  sound : c.Sound t.committed
  retains : c.Retains s.registry D t.committed
  kept : t.committed = D ∨ s.Accepts r

/-- The service is one for the records of a plain catalog, whose answers can be written. -/
structure Serves (s : Service) (c : Catalog) : Prop where
  plain : c.Plain
  exposed : c.Exposed s.registry s.rules
  settings : s.settings.CanReply
  admits : ∀ t ∈ s.registry.types, t.AdmitsAll

/-! ## The parts of writing -/

section

variable {m : Type → Type} [Monad m] [MonadExceptOf Fault m] {R : Type} (s : Service)
  (store : Store m R)

/-- The entity of a new record: it is built from the payload and added to its owner, and nothing
is written. -/
def drafted (scope : Scope) (request : Request) (x : Match) : m (Entity R) := do
  let fields ← MonadExcept.ofExcept (request.payload s.settings)
  let owner ← s.ownerOf store scope x
  store.hold (owner.map fun o => o.1.record).toList
  let payload ← (s.entities store).mapPayload scope.memberType fields
  let r ← store.build scope.memberType payload.given
  owner.forM fun o => store.attach o.1.record o.2 r
  pure { (s.graph store).entity r scope.memberType with payloadErrors := payload.errors }

/-- The entity that is changed, with what the payload gives to it; nothing is written. -/
def changed (scope : Scope) (request : Request) (x : Match) : m (Entity R) := do
  let e ← scope.entity (s.graph store) x.params
  let fields ← MonadExcept.ofExcept (request.payload s.settings)
  store.hold [e.record]
  let payload ← (s.entities store).mapPayload e.type fields
  store.assign e.record payload.given
  pure { e with payloadErrors := payload.errors }

/-- Answer with what is wrong with an entity, and discard its changes. -/
def refuse (format : Value) (e : Entity R) (y : Context) (status : Nat) (x : Match) :
    m Response := do
  let body ← (s.writer x.suffix).entity (s.graph store) e y false
  store.rollback
  s.reply format body status []

/-- Answer with a new entity and with its address. -/
def welcome (format : Value) (e : Entity R) (x : Match) : m Response := do
  let headers ← s.locationOf store e x
  let body ← (s.writer x.suffix).entity (s.graph store) e .create false
  s.reply format body 201 headers

/-- Judge a new entity, and store it or say what is wrong with it. -/
def enter (format : Value) (declared : ResourceType) (e : Entity R) (x : Match) : m Response := do
  let isValid ← e.valid (s.graph store) [.default, .create]
  if isValid then
    store.persist e.record
    s.welcome store format ((s.graph store).entity e.record declared) x
  else s.refuse store format e .create 201 x

/-- Judge an entity that was changed, and store it or say what is wrong with it. -/
def revise (format : Value) (e : Entity R) (x : Match) : m Response := do
  let isValid ← e.valid (s.graph store) [.default, .update]
  if isValid then
    store.persist e.record
    let body ← (s.writer x.suffix).entity (s.graph store) e .update false
    s.reply format body 200 []
  else s.refuse store format e .update 200 x

variable [LawfulMonad m]

theorem create_eq (scope : Scope) (request : Request) (x : Match) :
    s.create store scope request x = (do
      let format ← s.format x.suffix
      let e ← s.drafted store scope request x
      s.enter store format scope.memberType e x) := by
  simp only [create, drafted, enter, bind_assoc, pure_bind]
  refine bind_congr fun format => bind_congr fun fields => bind_congr fun owner =>
    bind_congr fun _ => bind_congr fun payload => bind_congr fun r => ?_
  cases owner with
  | none =>
    change _ = (pure PUnit.unit : m PUnit) >>= fun _ => _
    rw [pure_bind]
    rfl
  | some o => rfl

theorem update_eq (scope : Scope) (request : Request) (x : Match) :
    s.update store scope request x = (do
      let format ← s.format x.suffix
      let e ← s.changed store scope request x
      s.revise store format e x) := by
  simp only [update, changed, bind_assoc, pure_bind, revise, refuse]

end

variable {s : Service} {c : Catalog} {D : Database} {t : Session}

theorem Settles.of_kept (hD : c.Sound D) (h : t.committed = D) (r : Response) :
    s.Settles c D r t :=
  ⟨h ▸ hD, h ▸ .refl c s.registry t.committed, Or.inl h⟩

/-- What a request with a payload may change: the properties of the entity of the scope that the
payload has and clients may write. -/
def MayChange (s : Service) (c : Catalog) (D : Database) (scope : Scope) (request : Request)
    (x : Match) (table : String) (k : Int) (column : String) : Prop :=
  ∃ e u z fields, (scope.entity (s.graph c.store) x.params).exec (.start D) = (.ok e, u) ∧
    u.known? e.record = some z ∧ z.model.rootTable = table ∧ z.key = [.int k] ∧
      request.payload s.settings = .ok fields ∧ e.type.Offers fields column

/-- A session in which what a request gives to an entity is not written yet: the entity is that of
the record under a number, and nothing else that is stored may change. If nothing was found to be
wrong with the payload then the rules have nothing against the new records in it. -/
structure Changed (s : Service) (c : Catalog) (D : Database) (scope : Scope) (request : Request)
    (x : Match) (e : Entity Ref) (m : Model) (k : Int) (t : Session) : Prop where
  mem : m ∈ c.models
  name : e.record.model = m.name
  type : s.registry.typeOf? m.recordClass = some e.type
  confined : c.Confined s.registry D (· = e.record) (s.MayChange c D scope request x) t
  pinned : c.Carrying D (e.record.number + 1) (Entry.Pinned e.record m.rootTable k) t
  admits : c.Admits D s.registry s.rules (s.registry.IsHeard s.rules ∧ e.payloadErrors = []) t
  own : ∀ table j column, s.MayChange c D scope request x table j column →
    table = m.rootTable ∧ j = k

end Service

/-- The entity has a link to the records of a model, which is that of the relationship. -/
def Catalog.LinksTo (c : Catalog) (m : Model) (y : Entity Ref × Relationship) : Prop :=
  ∃ n l, c.model? y.1.record.model = some n ∧ n.link? y.2.name = some l ∧ l.target = m.name ∧
    y.2.inverse = l.inverse

namespace Act

open Service

variable {s : Service} {c : Catalog} {D : Database} {H : Ref → Prop}

/-! ## Methods that read -/

theorem keeps_format {I : Session → Prop} (suffix : Option String) :
    Keeps I (s.format suffix : Act Value)
      fun v => Negotiation.choose s.settings suffix = .ok v := by
  unfold format
  rw [monadOfExcept_eq]
  exact keeps_ofExcept fun _ h => h

theorem keeps_reply {I : Session → Prop} (format : Value) (x : Representation) (status : Nat)
    (headers : List (String × String)) :
    Keeps I (s.reply format x status headers : Act Response) fun _ => True :=
  keeps_monadOfExcept _

/-- A reply has the status it is given. -/
theorem keeps_reply_status {I : Session → Prop} {suffix : Option String} {format : Value}
    (hformat : Negotiation.choose s.settings suffix = .ok format) (x : Representation)
    (status : Nat) (headers : List (String × String)) :
    Keeps I (s.reply format x status headers : Act Response) fun r => r.status = status := by
  rw [Service.reply, monadOfExcept_eq]
  exact keeps_ofExcept fun _ hr => (Negotiation.renderAs_eq_ok hformat hr).1

variable (hp : c.Plain) (hD : c.Sound D)

include hp hD

theorem keeps_showCollection (scope : Scope) (x : Match) :
    Keeps (c.Drafts D) (s.showCollection c.store scope x) fun r => r.status = 200 :=
  have hg := (Catalog.Drafts.reading hp hD).keepsGraph hp hD s.registry s.rules
  (keeps_format x.suffix).bind fun _ hformat => (hg.scopeCollection x.params scope).bind
    fun y _ => (hg.representation (s.writer x.suffix) y false).bind fun _ _ =>
      keeps_reply_status hformat _ _ _

theorem keeps_showEntity (scope : Scope) (x : Match) :
    Keeps (c.Drafts D) (s.showEntity c.store scope x) fun r => r.status = 200 :=
  have hg := (Catalog.Drafts.reading hp hD).keepsGraph hp hD s.registry s.rules
  (keeps_format x.suffix).bind fun _ hformat => (hg.scopeEntity x.params scope).bind
    fun e _ => (hg.entity (s.writer x.suffix) e .default false).bind fun _ _ =>
      keeps_reply_status hformat _ _ _

/-! ## Drafting -/

/-- The owner of new members has a link to them. -/
theorem reads_ownerOf {I : Session → Prop} (hI : c.Reading D I) (hq : ∀ s, I s → c.Quiet D s)
    (hx : c.Exposed s.registry s.rules) {scope : Scope} (hscope : scope.Formed s.registry)
    {m : Model} (hm : scope.memberType.model.bind c.ofClass? = some m) (x : Match) {t : Session} :
    Reads I (s.ownerOf c.store scope x) t (fun _ o => ∀ y ∈ o, c.LinksTo m y) True := by
  unfold ownerOf
  split
  · next target p _ parent rel =>
    obtain ⟨hformed, hreadable, hmany, ht⟩ := hscope
    have hrel := (List.mem_filter.1 hreadable).1
    refine (reads_scopeEntity hI hq hp hD hx hformed x.params).bind
      fun e u _ _ ⟨htyped, hbelongs⟩ => reads_pure fun _ => ?_
    obtain ⟨n, k, row, hpresents, hknown⟩ := hx.known_of_belongs hp hformed.memberType_mem
      (Or.inl (List.ne_nil_of_mem hrel)) htyped hbelongs
    obtain ⟨l, hl, hinverse, -, htarget⟩ := hpresents.relationship rel hrel
    rintro y ⟨⟩
    refine ⟨n, l, hknown.name ▸ hp.model?_eq hknown.mem, hl, ?_, hinverse⟩
    exact (Catalog.model?_mem ((htarget target ht).symm.trans hm)).2.symm
  · exact reads_pure fun _ => by simp

section

variable (hx : c.Exposed s.registry s.rules) {scope : Scope} (hscope : scope.Formed s.registry)
  {m : Model} (hm : c.Describes s.registry scope.memberType m) (hbuilt : m.isBuilt = true)
  (request : Request) (x : Match)

include hx hscope hm hbuilt

/-- Drafting a new record leaves what building it and attaching it to its owner establish, if links
may be given something then. If nothing was found to be wrong with the payload then the rules have
nothing against the new records in it. -/
theorem ends_drafted_of {ι : Type} {O : Option (Entity Ref × Relationship) → ι → Prop}
    {I : ι → Session → Prop} (hI : ∀ i, c.Drafting D (c.Opens s.registry) (I i))
    {J K : ι → Ref → Session → Prop} (hJ : ∀ i r, c.Editing D (J i r))
    (howner : Ends (s.ownerOf c.store scope x) (.start D) (fun o t => ∃ i, (I i t ∧
      c.Admits D s.registry s.rules (s.registry.IsHeard s.rules) t) ∧ O o i)
      fun _ t => t.committed = D)
    (hlinked : ∀ o i, O o i → ∀ y ∈ o, c.LinksTo m y)
    (hbuild : ∀ i fields given u, request.payload s.settings = .ok fields →
      Catalog.Mapped scope.memberType m fields given → I i u →
        Ends (build c scope.memberType given) u (fun r t => J i r t ∧ r.model = m.name)
          fun _ t => t.committed = D)
    (hattach : ∀ o i r u, O o i → J i r u → r.model = m.name →
      Ends (o.forM fun y => attach c y.1.record y.2 r) u (fun _ t => K i r t) fun _ _ => True) :
    Ends (s.drafted c.store scope request x) (.start D) (fun e t =>
      ((∃ i, J i e.record t ∧ K i e.record t) ∧ c.AdmitsBut D s.registry s.rules
        (s.registry.IsHeard s.rules ∧ e.payloadErrors = []) e.record t) ∧
      e.record.model = m.name ∧ ∃ errors,
        e = { (s.graph c.store).entity e.record scope.memberType with payloadErrors := errors })
      fun _ t => t.committed = D := by
  unfold drafted
  rw [monadOfExcept_eq]
  refine (keeps_ofExcept (P := fun fields => request.payload s.settings = .ok fields)
    fun _ h => h).ends_bind (I := fun t => t = .start D) rfl
    (fun fields t ht hfields => ?_) fun _ _ h => h ▸ rfl
  -- The owner is read before anything is given to a record.
  rw [ht, ends_bind]
  refine howner.imp (fun owner u ⟨i, hu, howner⟩ => ?_) fun _ _ h => h
  refine (keeps_hold_admitted (hI i) _).ends_bind hu (fun _ v hv _ => ?_)
    fun _ _ h => h.2.committed
  rw [ends_bind]
  refine (ends_mapPayload_admitted hp hD (hI i) hx id hscope.memberType_mem hm fields hv.1
    hv.2).imp (fun payload w hw => ?_) fun _ _ h => ((hI i).drafts h).committed
  obtain ⟨⟨hw, hmapped⟩, hwadmits⟩ := hw
  rw [ends_bind]
  refine ((hbuild i fields payload.given w hfields hmapped hw).and
    (ends_build_but hp hD hm.model hbuilt hmapped.suits hwadmits)).imp (fun r t ht => ?_)
      fun _ _ h => h.1
  obtain ⟨⟨ht, hr⟩, htadmits⟩ := ht
  have hbut : c.Editing D (c.AdmitsBut D s.registry s.rules
      (s.registry.IsHeard s.rules ∧ payload.errors = []) r) := Catalog.AdmitsBut.editing hp hD
  have hkeeps : Keeps (fun t => J i r t ∧ c.AdmitsBut D s.registry s.rules
      (s.registry.IsHeard s.rules ∧ payload.errors = []) r t)
      (owner.forM fun y => attach c y.1.record y.2 r) fun _ => True :=
    keeps_option_forM fun y hy => by
      obtain ⟨n, l, hn, hl, htarget, hinverse⟩ := hlinked owner i howner y hy
      exact keeps_attach ((hJ i r).and hbut) hp hD hn hl (hr.trans htarget.symm) hinverse
  rw [ends_bind]
  exact ((hkeeps t ⟨ht, htadmits⟩).and (hattach owner i r t howner ht hr)).imp
    (fun _ u h => ⟨⟨⟨i, h.1.1.1, h.2⟩, h.1.1.2⟩, hr, payload.errors, rfl⟩)
    fun _ _ h => h.1.2.committed

/-- Drafting a new record leaves what building it establishes, whoever its owner is. -/
theorem ends_drafted {I : Session → Prop} (hI : c.Drafting D (c.Opens s.registry) I)
    (hstart : I (.start D)) {J : Ref → Session → Prop} (hJ : ∀ r, c.Editing D (J r))
    (hbuild : ∀ fields given u, request.payload s.settings = .ok fields →
      Catalog.Mapped scope.memberType m fields given → I u →
        Ends (build c scope.memberType given) u (fun r t => J r t ∧ r.model = m.name)
          fun _ t => t.committed = D) :
    Ends (s.drafted c.store scope request x) (.start D) (fun e t =>
      (J e.record t ∧ c.AdmitsBut D s.registry s.rules
        (s.registry.IsHeard s.rules ∧ e.payloadErrors = []) e.record t) ∧
      e.record.model = m.name ∧ ∃ errors,
        e = { (s.graph c.store).entity e.record scope.memberType with payloadErrors := errors })
      fun _ t => t.committed = D := by
  have hadmits : c.Editing D (c.Admits D s.registry s.rules (s.registry.IsHeard s.rules)) :=
    Catalog.Admits.editing hp hD
  have hread := (hI.toReading.and (Catalog.Quiet.reading hp hD)).and hadmits.toReading
  have howner := reads_ownerOf hp hD hread (fun _ h => h.1.2) hx hscope hm.model x
    ⟨⟨hstart, Catalog.quiet_start D⟩, Catalog.carrying_start D _⟩
  refine (ends_drafted_of (ι := Unit) (O := fun o _ => ∀ y ∈ o, c.LinksTo m y)
    (K := fun _ _ _ => True) hp hD hx hscope hm hbuilt request x (fun _ => hI) (fun _ => hJ)
    (howner.imp (fun o t h => ⟨(), ⟨h.1.1.1, h.1.2⟩, h.2.2⟩) fun _ _ h => h.1.2.committed)
    (fun _ _ h => h) (fun _ => hbuild)
    fun o _ r u _ _ _ => (ends_exec _ u).imp (fun _ _ _ => trivial) fun _ _ _ => trivial).imp
      (fun e t h => ⟨⟨h.1.1.elim fun _ h => h.1, h.1.2⟩, h.2⟩) fun _ _ h => h

end

/-- Drafting a new record gives nothing to any record that is stored. -/
theorem ends_drafted_confined (hx : c.Exposed s.registry s.rules) {scope : Scope}
    (hscope : scope.Formed s.registry) (hmutable : scope.isMutable = true) (request : Request)
    (x : Match) : Ends (s.drafted c.store scope request x) (.start D) (fun e t =>
      c.Confined s.registry D (fun _ => False) (fun _ _ _ => False) t ∧
        c.AdmitsBut D s.registry s.rules (s.registry.IsHeard s.rules ∧ e.payloadErrors = [])
          e.record t ∧ ∃ m, c.Describes s.registry scope.memberType m ∧ e.record.model = m.name ∧
            ∃ errors, e = { (s.graph c.store).entity e.record scope.memberType with
              payloadErrors := errors })
      fun _ t => t.committed = D := by
  obtain ⟨m, hm⟩ := hx.describes hscope.memberType_mem
  have hbuilt : m.isBuilt = true := hm.built (by simp_all [Scope.isMutable])
  have hI := Catalog.drafting_confined hp hD s.registry (fun _ => False) fun _ _ _ => False
  refine (ends_drafted hp hD hx hscope hm hbuilt request x hI ⟨Catalog.edited_start D,
    Catalog.carrying_start D _⟩ (fun _ => hI.toEditing)
      fun fields given u _ hmapped hu => ?_).imp
        (fun _ _ h => ⟨h.1.1, h.1.2, m, hm, h.2⟩) fun _ _ h => h
  exact (keeps_build hp hD hI hm.model hbuilt (fun f hf => (hmapped.suits f hf).imp
    fun _ h => h.opens hscope.memberType_mem hm) u hu).imp (fun _ _ h => h)
      fun _ _ h => h.1.committed

/-- Changing an entity leaves a session in which this is not written yet. -/
theorem ends_changed (hx : c.Exposed s.registry s.rules) {scope : Scope}
    (hscope : scope.Formed s.registry) (request : Request) (x : Match) :
    Ends (s.changed c.store scope request x) (.start D)
      (fun e t => ∃ m k, s.Changed c D scope request x e m k t) fun _ t => t.committed = D := by
  have hI := ((Catalog.Edited.reading (H := fun _ => False) hp hD).and
    (Catalog.Quiet.reading hp hD)).and (Catalog.Carrying.editing hp hD
      (Entry.stable_nil 0)).toReading
  have hadmits : c.Editing D (c.Admits D s.registry s.rules (s.registry.IsHeard s.rules)) :=
    Catalog.Admits.editing hp hD
  unfold changed
  rw [ends_bind]
  refine ((ends_exec _ _).and (reads_scopeEntity (hI.and hadmits.toReading) (fun _ h => h.1.1.2)
    hp hD hx hscope x.params ⟨⟨⟨Catalog.edited_start D, Catalog.quiet_start D⟩,
      Catalog.carrying_start D _⟩, Catalog.carrying_start D _⟩)).imp (fun e t h => ?_)
        fun _ _ h => h.2.1.1.1.1.committed
  obtain ⟨hexec, ⟨⟨⟨ht, -⟩, hnil⟩, hadmits⟩, -, ⟨m, k, row, htyped⟩, -⟩ := h
  obtain ⟨hmem, hpresents⟩ := hx.presents_of_typeOf htyped.mem htyped.type
  have hmodel : c.model? e.record.model = some m := htyped.name ▸ hp.model?_eq htyped.mem
  obtain ⟨y, hy, hyref, -, hyroot, hykey⟩ := htyped.holds
  have hyknown : t.known? e.record = some y := hyref ▸ ht.toDrafts.known?_eq hy
  have hown : ∀ table j column, s.MayChange c D scope request x table j column →
      table = m.rootTable ∧ j = k := by
    rintro table j column ⟨e', t', z, -, hexec', hz, htable, hkey, -⟩
    obtain ⟨he, rfl⟩ := Prod.mk.inj (hexec.symm.trans hexec')
    obtain rfl := Except.ok.inj he
    obtain rfl := Option.some.inj (hyknown.symm.trans hz)
    exact ⟨htable.symm.trans hyroot, by simpa [hykey] using hkey.symm⟩
  -- From here on the record is held, and it stays the one of its row.
  have hI : c.Drafting D (c.Opens s.registry) (c.Revising s.registry D
      (s.MayChange c D scope request x) e.record m.rootTable k) := Catalog.drafting_revising hp hD
  rw [monadOfExcept_eq]
  refine (keeps_ofExcept (P := fun fields => request.payload s.settings = .ok fields)
    fun _ h => h).ends_bind (I := fun u => c.Revising s.registry D
      (s.MayChange c D scope request x) e.record m.rootTable k u ∧
        c.Admits D s.registry s.rules (s.registry.IsHeard s.rules) u)
    ⟨.of_holds ht hnil.carried htyped.holds, hadmits⟩ (fun fields u hu hfields => ?_)
      fun _ _ h => h.2.committed
  refine (keeps_hold_admitted hI _).ends_bind hu (fun _ u hu _ => ?_) fun _ _ h => h.2.committed
  rw [ends_bind]
  refine (ends_mapPayload_admitted hp hD hI hx id hmem hpresents.toDescribes fields hu.1
    hu.2).imp (fun payload u hu => ?_) fun _ _ h => (hI.drafts h).committed
  obtain ⟨⟨hu, hpayload⟩, hadmits⟩ := hu
  have hheard : c.Editing D (c.Admits D s.registry s.rules
      (s.registry.IsHeard s.rules ∧ payload.errors = [])) := Catalog.Admits.editing hp hD
  refine (keeps_assign (hI.toEditing.and hheard) hp hD hmodel hpayload.suits
    fun u name v hu hoffers hv => ⟨hu.1.give hp hmodel hv (hoffers.opens hmem hpresents.toDescribes)
      ?_, hu.2.give hp hmodel hv fun z hz href _ _ hnew => ?_⟩).ends_bind ⟨hu, hadmits⟩
    (fun _ u hu _ => ⟨m, k, htyped.mem, htyped.name, htyped.type, hu.1.1, hu.1.2, hu.2, hown⟩)
      fun _ _ h => h.2.committed
  · exact ⟨e, t, y, fields, hexec, hyknown, hyroot, hykey, hfields, hoffers⟩
  · exact absurd (hu.1.1.1.held z hz href) (by simp [show z.isStored = false from hnew])

/-! ## Storing and answering -/

/-- Refusing an entity leaves the database as it was. -/
theorem ends_refuse {t : Session} (ht : c.Edited D H t) (format : Value) (e : Entity Ref)
    (y : Context) (status : Nat) (x : Match) :
    Ends (s.refuse c.store format e y status x) t (fun _ u => u.committed = D)
      fun _ u => u.committed = D := by
  have hg := (Catalog.Edited.reading (H := H) hp hD).keepsGraph hp hD s.registry s.rules
  refine (hg.entity (s.writer x.suffix) e y false).ends_bind ht (fun body u hu _ => ?_)
    fun _ _ h => h.committed
  have hrollback : Keeps (fun u => u.committed = D) (do
      c.store.rollback
      s.reply format body status []) fun _ => True :=
    (keeps_modify (g := Session.rollback) fun _ h => h).bind fun _ _ => keeps_reply _ _ _ _
  exact (hrollback u hu.committed).imp (fun _ _ h => h.1) fun _ _ h => h

omit hD in
/-- The headers for a stored record are made without a fault: they tell its address. -/
theorem reads_locationOf {I : Session → Prop} (hI : c.Reading D I) (hq : ∀ s, I s → c.Quiet D s)
    {t : Session} {e : Entity Ref} {m : Model} {k : Int} {row : Row}
    (he : c.Known D t e.record m k row) (x : Match) :
    Reads I (s.locationOf c.store e x) t (fun _ headers =>
      headers = [("Location", Text.uriText (e.type.entityUri (s.writer x.suffix) k))]) False := by
  intro ht
  obtain ⟨y, hknown, -, -, hkey, -⟩ := (hq t ht).known? hp he
  revert ht
  refine Reads.bind ((reads_identity hI e.record).imp (fun _ _ _ _ h => h) fun h => ?_) ?_
  · rw [hknown] at h
    cases h
  rintro v u - htu ⟨rfl, y', hy', rfl⟩
  obtain rfl := Option.some.inj (hknown.symm.trans hy')
  rw [keyValue, hkey]
  exact (reads_entityUri hI hq hp (he.mono htu) (s.writer x.suffix)).bind
    fun _ _ _ _ huri => reads_pure fun _ => by rw [huri]

omit hD in
/-- The full form of a record is answered from a session that has nothing to write. -/
theorem ends_shown (hx : c.Exposed s.registry s.rules) (hsettings : s.settings.CanReply)
    {D' : Database} (hD' : c.Sound D') {t : Session} (ht : c.Quiet D' t) {e : Entity Ref}
    {m : Model} {k : Int} {row : Row} (he : c.Typed s.registry D' t e m k row) {y : Context}
    (hpass : e.type.Passes s.rules y (Row.get row)) {x : Match} {format : Value}
    (hformat : Negotiation.choose s.settings x.suffix = .ok format) {status : Nat}
    (hstatus : status < 400) (headers : List (String × String)) {E : Fault → Session → Prop} :
    Ends (do
      let body ← (s.writer x.suffix).entity (s.graph c.store) e y false
      s.reply format body status headers) t (fun r u => c.Quiet D' u ∧ s.Accepts r ∧
        s.Replies x.suffix (c.fullForm s.registry D' (s.writer x.suffix) e.type m k row) status
          headers r) E := by
  have hI := Catalog.Quiet.reading hp hD'
  refine (reads_shown hI (fun _ h => h) hp hD' hx he hpass (s.writer x.suffix)).ends_bind ht
    (fun body u hu htu hfull => ?_) fun _ _ _ h => h.elim
  rw [hfull]
  exact (ends_reply_full hp hD' hx hsettings (he.mono htu) hformat _ hstatus headers).imp
      (fun r v ⟨hv, hr⟩ => ⟨hv ▸ hu, hr⟩) fun _ _ h => h

omit hp hD in
/-- A new record is answered with its address and its full form. -/
theorem ends_welcome (h : s.Serves c) {D' : Database} (hD' : c.Sound D') {t : Session}
    (ht : c.Quiet D' t) {e : Entity Ref} {m : Model} {k : Int} {row : Row}
    (he : c.Typed s.registry D' t e m k row) {x : Match} {format : Value}
    (hformat : Negotiation.choose s.settings x.suffix = .ok format) {E : Fault → Session → Prop} :
    Ends (s.welcome c.store format e x) t (fun r u => c.Quiet D' u ∧ s.Accepts r ∧
      s.Replies x.suffix (c.fullForm s.registry D' (s.writer x.suffix) e.type m k row) 201
        [("Location", Text.uriText (e.type.entityUri (s.writer x.suffix) k))] r) E := by
  obtain ⟨hp, hx, hsettings, hadmits⟩ := h
  obtain ⟨hmem, -⟩ := hx.presents_of_typeOf he.mem he.type
  refine (reads_locationOf hp (Catalog.Quiet.reading hp hD') (fun _ h => h)
    he.toKnown x).ends_bind ht (fun headers u hu htu hheaders => ?_) fun _ _ _ h => h.elim
  rw [hheaders]
  exact ends_shown hp hx hsettings hD' hu (he.mono htu) ((hadmits _ hmem).passes s.rules _)
    hformat (by decide) _

omit hp hD in
/-- A method reads the format, prepares an entity and goes on with it. -/
theorem ends_prepared {prepare : Act (Entity Ref)} {rest : Value → Entity Ref → Act Response}
    {suffix : Option String} {X : Entity Ref → Session → Prop} {Q : Response → Session → Prop}
    {E : Fault → Session → Prop} (hE : ∀ f t, t.committed = D → E f t)
    (hprepare : Ends prepare (.start D) X fun _ t => t.committed = D)
    (hrest : ∀ format e t, Negotiation.choose s.settings suffix = .ok format → X e t →
      Ends (rest format e) t Q E) :
    Ends (do
      let format ← s.format suffix
      let e ← prepare
      rest format e) (.start D) Q E := by
  refine (keeps_format suffix).ends_bind (I := fun t => t = .start D) rfl
    (fun format t ht hformat => ?_) fun f _ h => hE f _ (h ▸ rfl)
  rw [ht, ends_bind]
  exact hprepare.imp (fun e t he => hrest format e t hformat he) hE

/-- An entity is judged, and then refused or stored and shown. What is shown is read from a
session that has nothing to write. -/
theorem ends_judged {e : Entity Ref} {ys : List Context} {shown refused : Act Response}
    {t : Session} {B V Y : Session → Prop} {W : Session → Session → Prop}
    {Q : Response → Session → Prop} {E : Fault → Session → Prop}
    (hE : ∀ f t, t.committed = D → E f t)
    (hvalid : Ends (e.valid (s.graph c.store) ys) t
      (fun isValid u => (isValid = false → B u) ∧ (isValid = true → V u))
      fun _ u => u.committed = D)
    (hV : ∀ u, V u → Y u) (hY : c.Enrolling D Y) (hedited : ∀ u, Y u → c.Edited D H u)
    (hW : ∀ u, Y u → (∃ z ∈ u.entries, z.ref = e.record ∧ z.isMember = true) → c.Yields u (W u))
    (hrefused : ∀ u, B u → Ends refused u Q E)
    (hshown : ∀ u v, V u → c.Persisted Y W u e.record v → Ends shown v Q E) :
    Ends (do
      let isValid ← e.valid (s.graph c.store) ys
      if isValid then
        c.store.persist e.record
        shown
      else refused) t Q E := by
  rw [ends_bind]
  refine hvalid.imp (fun isValid u ⟨hB, hV'⟩ => ?_) hE
  cases isValid with
  | false => exact hrefused u (hB rfl)
  | true =>
    rw [if_pos rfl, ends_bind]
    exact (ends_persist hp hD hY hedited hW (hV u (hV' rfl))).imp
      (fun _ v hv => hshown u v (hV' rfl) hv) hE

/-- If an entity is found valid for a method then nothing was found to be wrong with the payload,
and the rules for the method have nothing against its record. -/
theorem ends_valid {I : Session → Prop} (hI : c.Reading D I) {e : Entity Ref} {z : Entry}
    {y : Context} (hy : y ≠ .default) {t : Session} (hknown : t.known? e.record = some z)
    (he : c.Presents s.registry s.rules e.type z.model) (ht : I t) :
    Ends (e.valid (s.graph c.store) [.default, y]) t (fun isValid u => I u ∧ (isValid = true →
      e.payloadErrors = [] ∧ ∃ z', u.known? e.record = some z' ∧ z'.model = z.model ∧
        e.type.Passes s.rules y (z'.cell D))) fun _ u => u.committed = D := by
  refine (reads_valid_default hI hp hD hknown (fun v hv => ?_) hy ht).imp
    (fun isValid u ⟨hu, htu, hvalid⟩ => ⟨hu, fun h => ?_⟩) fun _ _ h => (hI.drafts h.1).committed
  · obtain ⟨-, rule, column, hrule, hcolumn, -⟩ := he.rule v hv
    exact ⟨rule, column, hrule, hcolumn⟩
  · obtain ⟨z', hz', hmodel, hcell⟩ := htu.known? (hI.drafts hu) hknown
    exact ⟨(hvalid h).1, z', hz', hmodel, by rw [funext hcell]; exact (hvalid h).2⟩

/-- What was given in a session of drafts can be stored. -/
theorem ends_persist_confined {reg : Registry} {A : String → Int → String → Prop} {u : Session}
    (hu : c.Confined reg D H A u) (r : Ref) : Ends (persist c r) u
      (fun _ v => c.Persisted (c.Confined reg D H A) (c.Granting reg A) u r v)
      fun _ v => v.committed = D :=
  ends_persist hp hD (enrolling (Catalog.drafting_confined hp hD reg H A).toEditing)
    (fun _ h => h.1) (fun _ h _ => h.granting hp hD) hu

/-- Refusing an entity settles. -/
theorem ends_refuse_settles {A : String → Int → String → Prop} {t : Session}
    (ht : c.Edited D H t) (format : Value) (e : Entity Ref) (y : Context) (status : Nat)
    (x : Match) : Ends (s.refuse c.store format e y status x) t
      (fun r u => s.Settles c D r u ∧ c.Frames A D u.committed) fun _ u => u.committed = D :=
  (ends_refuse hp hD ht format e y status x).imp
    (fun r _ h => ⟨.of_kept hD h r, h ▸ .refl c A _⟩) fun _ _ h => h

omit hp hD in
/-- An answer that is read after a record was stored settles: what was stored changes only what
may change. -/
theorem settles_of_persisted {A : String → Int → String → Prop} {u v t : Session} {r : Ref}
    (hv : c.Persisted (c.Confined s.registry D H A) (c.Granting s.registry A) u r v)
    (ht : c.Quiet v.db t) {a : Response} (ha : s.Accepts a) :
    s.Settles c D a t ∧ c.Frames A D t.committed := by
  obtain ⟨w, z, hw, -, hgranting, hdb, -⟩ := hv.written
  have hretains : c.Retains s.registry D v.db := hdb ▸ hw.1.db ▸ hgranting.retains
  have hframes : c.Frames A D v.db := hdb ▸ hw.1.db ▸ hgranting.frames
  rw [← ht.committed] at hretains hframes
  exact ⟨⟨ht.committed ▸ hv.sound, hretains, Or.inr ha⟩, hframes⟩

omit hp in
/-- Creating stores a new record and answers with its full form, or keeps the database. No
column of a record that is there changes, apart from references. -/
theorem ends_create (h : s.Serves c) {scope : Scope} (hscope : scope.Formed s.registry)
    (hmutable : scope.isMutable = true) (request : Request) (x : Match) :
    Ends (s.create c.store scope request x) (.start D)
      (fun r t => s.Settles c D r t ∧ c.Frames (fun _ _ _ => False) D t.committed)
      fun _ t => t.committed = D := by
  have hp := h.plain
  have hx := h.exposed
  have hI := Catalog.drafting_confined hp hD s.registry (fun _ => False) fun _ _ _ => False
  have hg := hI.toReading.keepsGraph hp hD s.registry s.rules
  rw [create_eq]
  refine ends_prepared (fun _ _ h => h) (ends_drafted_confined hp hD hx hscope hmutable request x)
    fun format e t hformat ht => ?_
  refine ends_judged hp hD (B := c.Confined s.registry D _ _) (fun _ _ h => h)
    ((hg.valid e _ t ht.1).imp (fun _ _ h => ⟨fun _ => h.1, fun _ => h.1⟩)
      fun _ _ h => h.1.committed) (fun _ => id) (enrolling hI.toEditing) (fun _ h => h.1)
    (fun _ h _ => h.granting hp hD)
    (fun u hu => ends_refuse_settles hp hD hu.1 format e .create 201 x)
    fun u v _ hv => ?_
  -- What is read from here on is what was stored.
  obtain ⟨n, k, row, hknown⟩ := hv.quiet.known_of_stores hv.stored
  exact (ends_welcome h hv.sound hv.quiet (hknown.typed hp hx scope.memberType) hformat).imp
    (fun _ _ h => settles_of_persisted hv h.1 h.2.1) fun _ _ h => h

omit hD in
/-- What the rules of a type say about a record that was stored they said about it before. -/
theorem passes_of_persisted {u v : Session} (hu : c.Edited D H u) {r : Ref}
    {I : Session → Prop} {W : Session → Session → Prop} (hv : c.Persisted I W u r v)
    {x : Entry} (hx : x ∈ u.entries) (href : x.ref = r)
    (hstored : x.isStored = true) {reg : Registry} {book : RuleBook} {t : ResourceType}
    (ht : c.Presents reg book t x.model) {m : Model} {k : Int} {row : Row}
    (hr : c.Known v.db v r m k row) {y : Context} (hpass : t.Passes book y (x.cell D)) :
    t.Passes book y (Row.get row) := by
  obtain ⟨z, hz, -, -, -, hcell⟩ := hv.quiet.known? hp hr
  obtain ⟨hmem, hzref⟩ := Session.known?_mem hz
  intro w hw
  obtain ⟨rule, hrule, hsilent⟩ := hpass w hw
  obtain ⟨-, rule', column, hrule', hcolumn, hown, htext⟩ :=
    ht.rule w (List.mem_filter.1 hw).1
  obtain rfl := Except.ok.inj (hrule.symm.trans hrule')
  refine ⟨rule, hrule, ?_⟩
  rw [← hcell, hv.text x hx hstored _ column hcolumn hown htext z hmem (hzref.trans href.symm),
    hu.db]
  exact hsilent

section

variable {A : String → Int → String → Prop} {e : Entity Ref} {t : Session}
  (ht : c.Confined s.registry D (· = e.record) A t)

include ht

/-- An entity whose record is not known is not stored. -/
theorem ends_revise_unknown (hknown : t.known? e.record = none) (format : Value) (x : Match) :
    Ends (s.revise c.store format e x) t (fun _ u => u.committed = D)
      fun _ u => u.committed = D := by
  have hI := (Catalog.Edited.reading_unknown (H := (· = e.record)) hp hD rfl).and
    (Catalog.Carrying.editing hp hD (Catalog.stable_granted c s.registry A 0)).toReading
  refine ((hI.keepsGraph hp hD s.registry s.rules).valid e _).ends_bind
    ⟨⟨ht.1, by simpa [Session.known?] using hknown⟩, ht.2⟩
    (fun isValid u hu _ => ?_) fun _ _ h => h.1.1.committed
  cases isValid with
  | false => exact ends_refuse hp hD hu.1.1 format e .update 200 x
  | true =>
    rw [if_pos rfl, ends_bind]
    refine (ends_persist_confined hp hD ⟨hu.1.1, hu.2⟩ e.record).imp (fun _ v hv => ?_)
      fun _ _ h => h
    obtain ⟨y, hy, href⟩ := hv.known
    exact absurd href (hu.1.2 y hy)

/-- An entity whose record is known is stored and shown, or refused. -/
theorem ends_revise_known (hx : c.Exposed s.registry s.rules) (hsettings : s.settings.CanReply)
    {m : Model} (hm : m ∈ c.models) (hname : e.record.model = m.name)
    (htype : s.registry.typeOf? m.recordClass = some e.type) {y : Entry}
    (hknown : t.known? e.record = some y) {x : Match} {format : Value}
    (hformat : Negotiation.choose s.settings x.suffix = .ok format) :
    Ends (s.revise c.store format e x) t
      (fun r u => s.Settles c D r u ∧ c.Frames A D u.committed) fun _ u => u.committed = D := by
  have hI := Catalog.drafting_confined hp hD s.registry (· = e.record) A
  obtain ⟨-, hpresents⟩ := hx.presents_of_typeOf hm htype
  have hymodel := ht.1.toDrafts.model_of_known? hp hknown hm hname
  unfold revise
  refine ends_judged hp hD (B := c.Confined s.registry D (· = e.record) A) (fun _ _ h => h)
    ((ends_valid hp hD hI.toReading (by decide) hknown (hymodel ▸ hpresents) ht).imp
      (fun _ u h => ⟨fun _ => h.1, fun hvalid => And.intro h.1 (h.2 hvalid)⟩) fun _ _ h => h)
    (fun _ h => h.1) (enrolling hI.toEditing) (fun _ h => h.1) (fun _ h _ => h.granting hp hD)
    (fun u hu => ends_refuse_settles hp hD hu.1 format e .update 200 x) fun u v hu hv => ?_
  obtain ⟨hu, herrors, z, hz, hzmodel, hpass⟩ := hu
  obtain ⟨n, k, row, hstored⟩ := hv.quiet.known_of_stores hv.stored
  obtain rfl := hstored.model_eq hp hm hname
  -- The rules say about what was stored what they said before.
  obtain ⟨hzmem, hzref⟩ := Session.known?_mem hz
  have hpass' := passes_of_persisted hp hu.1 hv hzmem hzref (hu.1.held z hzmem hzref)
    (by rw [hzmodel, hymodel]; exact hpresents) hstored hpass
  exact (ends_shown hp hx hsettings hv.sound hv.quiet
    { hstored with type := htype, errors := herrors } hpass' hformat (by decide) []).imp
      (fun _ _ h => settles_of_persisted hv h.1 h.2.1) fun _ _ h => h

end

omit hp in
/-- Changing stores a record and answers with its full form, or keeps the database. Only what the
request may change changes in the records that are there, apart from references. -/
theorem ends_update (h : s.Serves c) {scope : Scope} (hscope : scope.Formed s.registry)
    (request : Request) (x : Match) :
    Ends (s.update c.store scope request x) (.start D)
      (fun r t => s.Settles c D r t ∧ c.Frames (s.MayChange c D scope request x) D t.committed)
      fun _ t => t.committed = D := by
  obtain ⟨hp, hx, hsettings, -⟩ := h
  rw [update_eq]
  refine ends_prepared (fun _ _ h => h) (ends_changed hp hD hx hscope request x)
    fun format e t hformat h => ?_
  obtain ⟨m, k, hchanged⟩ := h
  cases hknown : t.known? e.record with
  | none =>
    exact (ends_revise_unknown hp hD hchanged.confined hknown format x).imp
      (fun r _ h => ⟨.of_kept hD h r, h ▸ .refl c _ _⟩) fun _ _ h => h
  | some y =>
    exact ends_revise_known hp hD hchanged.confined hx hsettings hchanged.mem hchanged.name
      hchanged.type hknown hformat

end Act

end Hypermedia
