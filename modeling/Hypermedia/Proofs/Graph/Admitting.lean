import Hypermedia.Proofs.Graph.Judging

/-!
# New records and the rules for them

A payload may describe new records, and these others in turn. Each of them is judged when it was
built, and what is found to be wrong with it is noted for the record that it is given to. So if
nothing is noted in the end then the rules for new records were silent about all of them
(`Act.ends_mapPayload_admitted`). One kind of error is not noted: what is said about the
relationship through which the record is given to its owner. The rules must not say it there
(`Registry.IsHeard`).
-/

namespace Hypermedia

/-- What the rules for new records say is not about a relationship through which records are
given to others. -/
def Registry.IsHeard (reg : Registry) (book : RuleBook) : Prop :=
  ∀ t ∈ reg.types, ∀ v ∈ t.validators, v.create = true → ∀ rule, book.get v.rule = .ok rule →
    ∀ w es, (rule.verdict w >>= Errors.ofVerdict) = .ok es → ∀ f ∈ es,
      ∀ owner ∈ reg.types, ∀ rel ∈ owner.relationships, rel.inverse ≠ some f.1

/-- Where no type has rules for new records, they say nothing. -/
theorem Registry.isHeard_of_admitsAll {reg : Registry} (h : ∀ t ∈ reg.types, t.AdmitsAll)
    (book : RuleBook) : reg.IsHeard book :=
  fun t ht v hv hcreate => absurd hcreate (by simp [h t ht v hv])

/-- What a record was given, as the fields of a record that is not stored are read. -/
def Entry.asGiven (e : Entry) (name : String) : Value := (e.given? name).getD .null

/-- If the record is not stored yet, the rules for new records of its type are silent about what
it was given. -/
def Entry.IsAdmitted (reg : Registry) (book : RuleBook) (e : Entry) : Prop :=
  e.isStored = false → ∀ t, reg.typeOf? e.model.recordClass = some t →
    t.Passes book .create e.asGiven

theorem Entry.stable_isAdmitted (reg : Registry) (book : RuleBook) (P : Entry → Prop)
    (hP : ∀ e e' : Entry, e'.ref = e.ref → P e' → P e) (n : Nat) :
    Entry.Stable n fun e => P e → e.IsAdmitted reg book where
  alike := fun {e e'} h href hmodel hst _ hvalues hp hnew t ht => by
    have hpass := h (hP e e' href hp) (hst ▸ hnew) t (hmodel ▸ ht)
    rwa [show e'.asGiven = e.asGiven by funext name; simp [asGiven, given?, hvalues]]
  known := fun _ hst _ _ hnew => by simp [hst] at hnew

namespace Catalog

variable {c : Catalog} {D : Database} {reg : Registry} {book : RuleBook} {P P' : Prop}
  {s : Session} {r : Ref}

/-- A session of drafts in which, if `P`, the rules have nothing against any new record. -/
def Admits (c : Catalog) (D : Database) (reg : Registry) (book : RuleBook) (P : Prop) :
    Session → Prop :=
  c.Carrying D 0 fun e => P → e.IsAdmitted reg book

/-- A session of drafts with a new record. If `P`, the rules have nothing against any other one. -/
structure AdmitsBut (c : Catalog) (D : Database) (reg : Registry) (book : RuleBook) (P : Prop)
    (r : Ref) (s : Session) : Prop extends
    c.Carrying D 0 (fun e => P ∧ e.ref ≠ r → e.IsAdmitted reg book) s where
  fresh : ∃ e ∈ s.entries, e.ref = r ∧ e.isStored = false

theorem Admits.mono (h : c.Admits D reg book P s) (hP : P' → P) : c.Admits D reg book P' s :=
  { h with carried := fun e he hp => h.carried e he (hP hp) }

theorem Admits.editing (hp : c.Plain) (hD : c.Sound D) : c.Editing D (c.Admits D reg book P) :=
  Carrying.editing hp hD (Entry.stable_isAdmitted reg book (fun _ => P) (fun _ _ _ h => h) 0)

theorem AdmitsBut.editing (hp : c.Plain) (hD : c.Sound D) :
    c.Editing D (c.AdmitsBut D reg book P r) := by
  have hI : c.Editing D (c.Carrying D 0 fun e => P ∧ e.ref ≠ r → e.IsAdmitted reg book) :=
    Carrying.editing hp hD (Entry.stable_isAdmitted reg book (fun e => P ∧ e.ref ≠ r)
      (fun _ _ href h => ⟨h.1, href ▸ h.2⟩) 0)
  exact
    { drafts := fun h => h.toDrafts
      receive := fun h hnew hn hno => ⟨hI.receive h.toCarrying hnew hn hno,
        h.fresh.imp fun e he => ⟨List.mem_append_left _ he.1, he.2⟩⟩
      readLink := fun h₀ hseen he₀ hr hm hph hst h he hl hlinked => by
        refine ⟨hI.readLink h₀.toCarrying hseen he₀ hr hm hph hst h.toCarrying he hl hlinked, ?_⟩
        obtain ⟨e₁, he₁, hnew⟩ := h.fresh
        refine ⟨_, List.mem_map_of_mem he₁, ?_⟩
        split <;> exact hnew
      modify := fun h hf => by
        refine ⟨hI.modify h.toCarrying hf, ?_⟩
        obtain ⟨e₁, he₁, href, hnew⟩ := h.fresh
        refine ⟨_, List.mem_map_of_mem he₁, ?_⟩
        split
        · next hr =>
          obtain ⟨-, href', -, hst, -⟩ := hf e₁ (h.draft e₁ he₁) (by simpa using hr)
          exact ⟨href'.trans href, hst.trans hnew⟩
        · exact ⟨href, hnew⟩ }

/-- What a new record has is what it was given. -/
theorem Draft.cell_eq_asGiven {e : Entry} (he : c.Draft D e) (hnew : e.isStored = false) :
    e.cell D = e.asGiven := by
  funext name
  have hrow : e.row? D = none := by simp [Entry.row?, he.unstored hnew]
  simp [Entry.cell, Entry.asGiven, hrow]

/-- If the rules have nothing against the one new record either, they have nothing against any. -/
theorem AdmitsBut.admits (h : c.AdmitsBut D reg book P r s) {x : Entry}
    (hx : s.known? r = some x) {t : ResourceType} (ht : reg.typeOf? x.model.recordClass = some t)
    (hpass : P' → P ∧ t.Passes book .create (x.cell D)) : c.Admits D reg book P' s := by
  refine { h.toCarrying with carried := fun e he hP hnew t' ht' => ?_ }
  obtain ⟨hyes, hpass⟩ := hpass hP
  by_cases href : e.ref = r
  · obtain ⟨hmem, hxref⟩ := Session.known?_mem hx
    obtain rfl := Session.eq_of_ref_eq h.distinct he hmem (href.trans hxref.symm)
    obtain rfl := Option.some.inj (ht.symm.trans ht')
    rwa [← (h.draft e he).cell_eq_asGiven hnew]
  · exact h.carried e he ⟨hyes, href⟩ hnew t' ht'

end Catalog

namespace Act

variable {c : Catalog} {D : Database} {reg : Registry} {book : RuleBook} {P : Prop}
  {I : Session → Prop} {s : Session} (hp : c.Plain) (hD : c.Sound D)

/-! ## Judging new records -/

/-- What the rules for new records say is not about the relationship to the owner. -/
theorem keeps_verdicts_heard {inverse : Option String} {e : Entity Ref}
    (hheard : ∀ v ∈ e.type.validators, v.create = true → ∀ rule, book.get v.rule = .ok rule →
      ∀ w es, (rule.verdict w >>= Errors.ofVerdict) = .ok es → ∀ f ∈ es, some f.1 ≠ inverse) :
    Keeps (fun _ => True) (e.verdicts (entitiesOf c reg book).graph .create)
      fun ess => ∀ es ∈ ess, ∀ f ∈ es, some f.1 ≠ inverse := by
  refine keeps_mapM fun v hv => ?_
  obtain ⟨hmem, happlies⟩ := List.mem_filter.1 hv
  change Keeps _ ((do
    let rule ← MonadExcept.ofExcept (book.get v.rule)
    let w ← fieldValue c e.record rule.field
    MonadExcept.ofExcept (rule.verdict w)) >>= fun verdict =>
      MonadExcept.ofExcept (Errors.ofVerdict verdict)) _
  simp only [monadOfExcept_eq]
  have hjudge : Keeps (fun _ => True) (do
      let rule ← ofExcept (book.get v.rule)
      let w ← fieldValue c e.record rule.field
      ofExcept (rule.verdict w) : Act Value) fun verdict =>
        ∃ rule w, book.get v.rule = .ok rule ∧ rule.verdict w = .ok verdict :=
    (keeps_ofExcept fun _ h => h).bind fun rule hrule =>
      Keeps.bind (P := fun _ => True) (fun s _ => (ends_exec _ s).imp
        (fun _ _ _ => ⟨trivial, trivial⟩) fun _ _ _ => trivial) fun w _ =>
          keeps_ofExcept fun verdict hverdict => ⟨rule, w, hrule, hverdict⟩
  refine hjudge.bind fun verdict ⟨rule, w, hrule, hverdict⟩ => keeps_ofExcept fun es hes => ?_
  refine hheard v hmem happlies rule hrule w es ?_
  rw [hverdict]
  exact hes

include hp hD

/-- If nothing is found to be wrong with a new record then its rules are silent. -/
theorem reads_newErrors (hI : c.Reading D I) {inverse : Option String} {e : Entity Ref} {x : Entry}
    (he : s.known? e.record = some x)
    (hrule : ∀ v ∈ e.type.validators, ∃ rule y, book.get v.rule = .ok rule ∧
      x.model.column? rule.field = some y)
    (hheard : ∀ v ∈ e.type.validators, v.create = true → ∀ rule, book.get v.rule = .ok rule →
      ∀ w es, (rule.verdict w >>= Errors.ofVerdict) = .ok es → ∀ f ∈ es, some f.1 ≠ inverse) :
    Reads I ((entitiesOf c reg book).newErrors e inverse) s
      (fun _ es => es = [] → e.type.Passes book .create (x.cell D)) True := by
  have hg := (hI.seen s).keepsGraph hp hD reg book
  unfold WritableGraph.newErrors
  refine (Reads.of_keeps (hg.errors e .default)).bind fun own t ht hst _ => ?_
  obtain ⟨x', hx', hmodel, hcell⟩ := hst.known? (hI.drafts ht) he
  rw [← funext hcell, errors_of_ne_default (by decide), bind_assoc]
  have hverdicts : Reads I (e.verdicts (entitiesOf c reg book).graph .create) t (fun _ ess =>
      ((∀ es ∈ ess, es = []) → e.type.Passes book .create (x'.cell D)) ∧
        ∀ es ∈ ess, ∀ f ∈ es, some f.1 ≠ inverse) True := by
    have hknown : ∀ v ∈ e.type.validators, ∃ rule y, book.get v.rule = .ok rule ∧
        x'.model.column? rule.field = some y := hmodel ▸ hrule
    exact fun ht => ((reads_verdicts hI hp hD hx' hknown .create ht).and
      (keeps_verdicts_heard hheard t trivial)).imp (fun _ _ ⟨h, h'⟩ =>
        ⟨h.1, h.2.1, h.2.2.2.1, h'.2⟩) fun _ _ ⟨h, _⟩ => ⟨h.1, h.2.1, trivial⟩
  refine hverdicts.bind fun ess u _ _ ⟨hpass, hfields⟩ => reads_pure fun _ hnil => hpass ?_
  -- An error would stand under a field that is not left out.
  intro es hes
  refine List.eq_nil_iff_forall_not_mem.2 fun f hf => ?_
  have hmem : f.1 ∈ (Errors.merge [own, Errors.merge ess]).map Prod.fst :=
    Errors.mem_fields_merge.2 ⟨_, by simp,
      Errors.mem_fields_merge.2 ⟨es, hes, List.mem_map_of_mem hf⟩⟩
  obtain ⟨g, hg, hname⟩ := List.mem_map.1 hmem
  refine List.filter_eq_nil_iff.1 hnil g hg ?_
  rw [hname]
  simpa using hfields es hes f hf

/-- A new record is built, and nothing changes for the others. -/
theorem ends_build_but {t : ResourceType} {m : Model} (hm : t.model.bind c.ofClass? = some m)
    (hb : m.isBuilt = true) {N : String → Prop} {fields : List (String × Given Ref)}
    (hf : ∀ f ∈ fields, Catalog.Suits m N f) (hs : c.Admits D reg book P s) :
    Ends (build c t fields) s (fun r u => c.AdmitsBut D reg book P r u)
      fun _ u => u.committed = D := by
  have hmem := ofClass?_mem hm
  refine ends_build hm hs.numbers ?_
  have hbuilt : c.AdmitsBut D reg book P { number := s.next, model := m.name }
      { s with entries := s.entries ++ [.built m s.next], next := s.next + 1 } := by
    refine ⟨⟨hs.toDrafts.append (hp.draft_fresh hmem hb _) rfl (fun _ _ _ h => nomatch h),
      Nat.zero_le _, fun e he ⟨hP, hne⟩ => ?_⟩, .built m s.next, by simp, rfl, rfl⟩
    rcases List.mem_append.1 he with he | he
    · exact hs.carried e he hP
    · exact absurd (congrArg Entry.ref (List.mem_singleton.1 he)) hne
  refine (keeps_assign (Catalog.AdmitsBut.editing hp hD) hp hD (hp.model?_eq hmem) hf
    (fun u name v hu _ hv => ?_) _ hbuilt).imp (fun _ _ h => h.1) fun _ _ h => h.committed
  refine ⟨hu.toCarrying.give hp (hp.model?_eq hmem) hv fun e _ href _ hno =>
    absurd href hno.2, ?_⟩
  obtain ⟨e, he, href, hnew⟩ := hu.fresh
  refine ⟨_, List.mem_map_of_mem he, ?_⟩
  split <;> exact ⟨href, hnew⟩

/-! ## Mapping payloads -/

/-- A mapping of descriptions notes something if the rules have something against a record that it
builds. -/
def MapsAdmitted (c : Catalog) (D : Database) (I : Session → Prop) (reg : Registry)
    (book : RuleBook) (nested : WritableGraph.Mapping Act Ref) : Prop :=
  ∀ t ∈ reg.types, ∀ m, c.Describes reg t m → ∀ fields P s, I s → c.Admits D reg book P s →
    Ends (nested t fields) s (fun p u => c.Admits D reg book (P ∧ p.errors = []) u)
      fun _ _ => True

variable (hI : c.Drafting D (c.Opens reg) I) (hx : c.Exposed reg book) (hheard : reg.IsHeard book)
  {nested : WritableGraph.Mapping Act Ref} (hn : Maps c I reg nested)
  (hadmitted : MapsAdmitted c D I reg book nested)

include hI hx hheard hn hadmitted

/-- What is wrong with a described record is noted. -/
theorem ends_describe_admitted {owner target : ResourceType} (howner : owner ∈ reg.types)
    (ht : target ∈ reg.types) {m : Model} (hm : c.Describes reg target m) {rel : Relationship}
    (hrel : rel ∈ owner.relationships) (key : String) (fields : List (String × Value))
    (errors : Errors) (hs : I s) (hadmits : c.Admits D reg book P s) :
    Ends ((entitiesOf c reg book).describe nested target key rel.inverse fields errors) s
      (fun x u => c.Admits D reg book (P ∧ x.2 = []) u ∧ (x.2 = [] → errors = []))
      fun _ _ => True := by
  unfold WritableGraph.describe
  split
  · exact ⟨hadmits.mono And.left, fun hnil => absurd hnil (Errors.note_ne_nil _ _ _)⟩
  next habstract =>
  have hmem := ofClass?_mem hm.model
  have hbuilt := hm.built (by simpa using habstract)
  rw [ends_bind]
  refine ((hn target ht m hm fields s hs).and
    (hadmitted target ht m hm fields P s hs hadmits)).imp (fun p u ⟨⟨_, hsuits⟩, hu⟩ => ?_)
      fun _ _ _ => trivial
  rw [ends_bind]
  have hmodel : Ends (build c target p.given) u (fun r _ => r.model = m.name) fun _ _ => True :=
    (keeps_build hp hD hI hm.model hbuilt (fun f hf =>
      (hsuits f hf).imp fun name hname => hname.opens ht hm) u ‹_›).imp (fun _ _ h => h.2)
        fun _ _ _ => trivial
  refine (hmodel.and (ends_build_but hp hD hm.model hbuilt hsuits hu)).imp (fun r v ⟨hr, hv⟩ => ?_)
    fun _ _ _ => trivial
  obtain ⟨x, hmemx, rfl, -⟩ := hv.fresh
  have hknown := hv.toDrafts.known?_eq hmemx
  obtain rfl : x.model = m := Option.some.inj
    (((hv.draft x hmemx).model?_eq hp).symm.trans (hr ▸ hp.model?_eq hmem))
  obtain ⟨t, htype, -⟩ := hx.typeOf x.model hmem
  obtain ⟨htmem, hpresents⟩ := hx.presents_of_typeOf hmem htype
  have he : ((entitiesOf c reg book).graph.entity x.ref target).type = t :=
    Catalog.type_entity hp hmem hr htype target
  refine (reads_newErrors hp hD (Catalog.AdmitsBut.editing hp hD).toReading
    (e := (entitiesOf c reg book).graph.entity x.ref target) hknown (fun v hv => ?_)
      (fun v hv hcreate rule hrule w es hes f hf => ?_)).ends_bind hv
        (fun own w hw hvw hpass => ?_) fun _ _ _ _ => trivial
  · obtain ⟨-, rule, y, hget, hy, -⟩ := hpresents.rule v (he ▸ hv)
    exact ⟨rule, y, hget, hy⟩
  · exact (hheard t htmem v (he ▸ hv) hcreate rule hrule w es hes f hf owner howner rel hrel).symm
  obtain ⟨x', hx', hmodel', hcell⟩ := hvw.known? hw.toDrafts hknown
  refine ⟨hw.admits hx' (hmodel' ▸ htype) fun ⟨hP, hnil⟩ => ?_,
    fun hnil => (Errors.foldl_note_eq_nil hnil).1⟩
  have hparts := Errors.merge_eq_nil.1 (Errors.foldl_note_eq_nil hnil).2
  refine ⟨⟨hP, hparts _ (by simp)⟩, ?_⟩
  rw [funext hcell, ← he]
  exact hpass (hparts _ (by simp))

omit hI hx hheard hn hadmitted in
/-- Referring to a record only reads. -/
theorem ends_refer_admitted (target : ResourceType) (key : String) (v : Value) (errors : Errors)
    (hadmits : c.Admits D reg book P s) :
    Ends ((entitiesOf c reg book).refer target key v errors) s
      (fun x u => c.Admits D reg book (P ∧ x.2 = []) u ∧ (x.2 = [] → errors = []))
      fun _ _ => True := by
  have hI : c.Editing D (c.Admits D reg book P) := Catalog.Admits.editing hp hD
  have hg := hI.toReading.keepsGraph hp hD reg book
  unfold WritableGraph.refer
  refine (hg.lookup target (Payload.referredId v)).ends_bind hadmits (fun o u hu _ => ?_)
    fun _ _ _ => trivial
  cases o with
  | some e => exact ⟨hu.mono And.left, id⟩
  | none => exact ⟨hu.mono And.left, fun hnil => absurd hnil (Errors.note_ne_nil _ _ _)⟩

theorem ends_resolve_admitted {owner target : ResourceType} (howner : owner ∈ reg.types)
    (ht : target ∈ reg.types) {m : Model} (hm : c.Describes reg target m) {rel : Relationship}
    (hrel : rel ∈ owner.relationships) (key : String) (mayDescribe : Bool) (v : Value)
    (errors : Errors) (hs : I s) (hadmits : c.Admits D reg book P s) :
    Ends ((entitiesOf c reg book).resolve nested target key mayDescribe rel.inverse v errors) s
      (fun x u => c.Admits D reg book (P ∧ x.2 = []) u ∧ (x.2 = [] → errors = []))
      fun _ _ => True := by
  unfold WritableGraph.resolve
  split
  · exact ends_describe_admitted hp hD hI hx hheard hn hadmitted howner ht hm hrel key _ errors hs
      hadmits
  · exact ends_refer_admitted hp hD target key v errors hadmits

theorem ends_resolveAll_admitted {owner target : ResourceType} (howner : owner ∈ reg.types)
    (ht : target ∈ reg.types) {m : Model} (hm : c.Describes reg target m)
    (ha : c.isAlone m = true) {rel : Relationship} (hrel : rel ∈ owner.relationships)
    (key : String) (mayDescribe : Bool) (vs : List Value) :
    ∀ (errors : Errors) (P : Prop) (s : Session), I s → c.Admits D reg book P s →
      Ends ((entitiesOf c reg book).resolveAll nested target key mayDescribe rel.inverse vs
        errors) s
        (fun x u => c.Admits D reg book (P ∧ x.2 = []) u ∧ (x.2 = [] → errors = []))
        fun _ _ => True := by
  induction vs with
  | nil => exact fun _ _ _ _ hadmits => ⟨hadmits.mono And.left, id⟩
  | cons v vs ih =>
    intro errors P s hs hadmits
    unfold WritableGraph.resolveAll
    rw [ends_bind]
    refine ((keeps_resolve hI hp hD book hn ht hm ha key mayDescribe rel.inverse v errors s hs).and
      (ends_resolve_admitted hp hD hI hx hheard hn hadmitted howner ht hm hrel key mayDescribe v
        errors hs hadmits)).imp (fun x u h => ?_) fun _ _ _ => trivial
    obtain ⟨hkept, hu, herrors⟩ := h
    rw [ends_bind]
    refine (ih x.2 _ u hkept.1 hu).imp (fun y w h => ?_) fun _ _ h => h
    obtain ⟨hw, hrest⟩ := h
    exact ⟨hw.mono fun h => ⟨⟨h.1, hrest h.2⟩, h.2⟩, herrors ∘ hrest⟩

/-- What is wrong with the records of a relationship is noted. -/
theorem ends_mapRelationship_admitted {t : ResourceType} (ht : t ∈ reg.types) {m : Model}
    (hm : c.Describes reg t m) {rel : Relationship} (hrel : rel ∈ t.relationships)
    (fields : List (String × Value)) {p : Payload Ref} (hs : I s)
    (hadmits : c.Admits D reg book (P ∧ p.errors = []) s) :
    Ends ((entitiesOf c reg book).mapRelationship nested fields p rel) s
      (fun q u => c.Admits D reg book (P ∧ q.errors = []) u) fun _ _ => True := by
  obtain ⟨l, hl, -, -, htarget⟩ := hm.relationship rel hrel
  obtain ⟨n, hn', hspec⟩ := hp.linkSpec (ofClass?_mem hm.model) (List.mem_of_find?_eq_some hl)
  have hresolved : ∀ {x : Errors} {u : Session},
      c.Admits D reg book ((P ∧ p.errors = []) ∧ x = []) u → (x = [] → p.errors = []) →
        c.Admits D reg book (P ∧ x = []) u :=
    fun hu herrors => hu.mono fun h => ⟨⟨h.1, herrors h.2⟩, h.2⟩
  unfold WritableGraph.mapRelationship
  rw [monadOfExcept_eq]
  refine (keeps_ofExcept (I := fun u => u = s) (P := fun target =>
    reg.resolve rel.target = .ok target) fun _ h => h).ends_bind rfl (fun target u hu hres => ?_)
      fun _ _ _ => trivial
  rw [hu]
  have htmem := Registry.resolve_mem hres
  obtain ⟨m', hm'⟩ := hx.describes htmem
  obtain rfl : m' = n := by
    have h := htarget target hres
    rw [hm'.model, hn'] at h
    exact Option.some.inj h
  split
  · exact hadmits
  · next key v mayDescribe _ =>
    split
    · split
      · rw [ends_bind]
        exact (ends_resolveAll_admitted hp hD hI hx hheard hn hadmitted ht htmem hm' hspec.alone
          hrel key mayDescribe _ p.errors _ s hs hadmits).imp
            (fun x u hu => hresolved hu.1 hu.2) fun _ _ h => h
      · exact hadmits.mono fun h => absurd h.2 (Errors.note_ne_nil _ _ _)
    split
    · exact hadmits
    · rw [ends_bind]
      exact (ends_resolve_admitted hp hD hI hx hheard hn hadmitted ht htmem hm' hrel key
        mayDescribe v p.errors hs hadmits).imp (fun x u hu => hresolved hu.1 hu.2) fun _ _ h => h

omit hn hadmitted in
/-- What is wrong with the records of a payload is noted, if that of its descriptions is. -/
theorem ends_mapFields_admitted (fuel : Nat)
    (hadmitted : MapsAdmitted c D I reg book ((entitiesOf c reg book).mapFields fuel)) :
    MapsAdmitted c D I reg book ((entitiesOf c reg book).mapFields (fuel + 1)) := by
  have hdescribes : ∀ t ∈ reg.types, ∃ m, c.Describes reg t m := fun _ => hx.describes
  have hn := maps_mapFields hI hp hD hdescribes book fuel
  intro t ht m hm fields P s hs hadmits
  refine (ends_foldlM (I := fun p u => (I u ∧ Catalog.Mapped t m fields p.given) ∧
    c.Admits D reg book (P ∧ p.errors = []) u) ⟨⟨hs, mapped_of_mapProperties hm fields⟩,
      hadmits.mono And.left⟩ fun rel hrel p u ⟨⟨hu, hmapped⟩, hadmits⟩ => ?_).imp
        (fun _ _ h => h.2) fun _ _ h => h
  have hmem := (List.mem_filter.1 hrel).1
  exact ((keeps_mapRelationship hI hp hD hdescribes book hn hm (ofClass?_mem hm.model) hmem fields
    hmapped u hu).and (ends_mapRelationship_admitted hp hD hI hx hheard hn hadmitted ht hm hmem
      fields hu hadmits)).imp (fun _ _ h => h) fun _ _ _ => trivial

omit hn hadmitted in
theorem mapsAdmitted_mapFields (fuel : Nat) :
    MapsAdmitted c D I reg book ((entitiesOf c reg book).mapFields fuel) := by
  induction fuel with
  | zero => exact fun _ _ _ _ _ _ _ _ hadmits => hadmits.mono And.left
  | succ fuel ih => exact ends_mapFields_admitted hp hD hI hx hheard fuel ih

omit hp hD hx hheard hn hadmitted in
/-- What is held is only a part of the session. -/
theorem keeps_hold_admitted (rs : List Ref) :
    Keeps (fun s => I s ∧ c.Admits D reg book P s) (modify fun s => s.keep rs) fun _ => True :=
  keeps_modify fun _ h => ⟨hI.filter h.1 _, Catalog.Carrying.filter h.2 _⟩

omit hheard hn hadmitted in
/-- If mapping a payload notes nothing then the rules have nothing against the new records that it
describes, however deep they stand in it. -/
theorem ends_mapPayload_admitted (hheard : P → reg.IsHeard book) {t : ResourceType}
    (ht : t ∈ reg.types) {m : Model} (hm : c.Describes reg t m) (fields : List (String × Value))
    (hs : I s) (hadmits : c.Admits D reg book P s) :
    Ends ((entitiesOf c reg book).mapPayload t fields) s (fun p u =>
      (I u ∧ Catalog.Mapped t m fields p.given) ∧ c.Admits D reg book (P ∧ p.errors = []) u)
      fun _ u => I u := by
  have hkeeps := keeps_mapPayload hI hp hD (fun _ => hx.describes) book hm fields s hs
  by_cases hyes : reg.IsHeard book
  · exact (hkeeps.and (mapsAdmitted_mapFields hp hD hI hx hyes _ t ht m hm fields P s hs
      hadmits)).imp (fun _ _ h => h) fun _ _ h => h.1
  · exact hkeeps.imp (fun _ u h => ⟨h, hI.drafts h.1, Nat.zero_le _,
      fun _ _ hP => absurd (hheard hP.1) hyes⟩) fun _ _ h => h

end Act

end Hypermedia
