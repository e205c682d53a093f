import Hypermedia.Proofs.Graph.Judging

/-!
# What is wrong with a new record

Whether something is wrong with an entity apart from its rules does not depend on how often one
asks: what was found to be missing is still missing when more has been read
(`Entity.Faulty`). So an entity that was refused because of that is shown by its errors
(`Act.ends_entity_faulty`).
-/

namespace Hypermedia

/-- The session knows a record with this value in a column. -/
def Session.HasCell (D : Database) (s : Session) (r : Ref) (name : String) (v : Value) : Prop :=
  ∃ e x, s.known? r = some e ∧ e.model.column? name = some x ∧ e.cell D name = v

namespace Catalog

variable {c : Catalog} {D : Database} {I : Session → Prop}

/-- What only depends on the records that are known is kept by reading. -/
theorem Reading.and_seen (hI : c.Reading D I) {P : Session → Prop}
    (hP : ∀ s t, c.Drafts D t → s.SeenFrom t → P s → P t) : c.Reading D fun s => I s ∧ P s where
  drafts := fun h => hI.drafts h.1
  receive := fun h hnew hn hno =>
    have ht := hI.receive h.1 hnew hn hno
    ⟨ht, hP _ _ (hI.drafts ht) (.receive _ _ _ _) h.2⟩
  readLink := fun h₀ hseen he₀ hr hm hph hst h he hl hlinked =>
    have ht := hI.readLink h₀.1 hseen he₀ hr hm hph hst h.1 he hl hlinked
    ⟨ht, hP _ _ (hI.drafts ht) (.setLink _ _ _ _) h.2⟩

theorem Reading.hasCell (hI : c.Reading D I) (r : Ref) (name : String) (v : Value) :
    c.Reading D fun s => I s ∧ s.HasCell D r name v :=
  hI.and_seen fun _ _ ht hst ⟨_, x, he, hx, hcell⟩ =>
    have ⟨e', he', hmodel, hsame⟩ := hst.known? ht he
    ⟨e', x, he', hmodel ▸ hx, (hsame name).trans hcell⟩

/-- A link that was read is not read again. -/
theorem Reading.leads (hI : c.Reading D I) (r : Ref) (l : Link) (xs : List Ref) :
    c.Reading D fun s => I s ∧ s.Leads r l xs where
  drafts := fun h => hI.drafts h.1
  receive := by
    rintro s m n row ⟨hs, e, he, hl, hread⟩ hnew hn hno
    have ht := hI.receive hs hnew hn hno
    obtain ⟨hmem, rfl⟩ := Session.known?_mem he
    exact ⟨ht, e, (hI.drafts ht).known?_eq (List.mem_append_left _ hmem), hl, hread⟩
  readLink := by
    rintro s₀ s e₀ e l' added removed stored ⟨hs₀, e₁, he₁, -, before₁, hread₁⟩ hseen he₀ href₀
      hmodel hphase hst ⟨hs, e₂, he₂, hl, before, hread⟩ he hl' hlinked
    have ht := hI.readLink hs₀ hseen he₀ href₀ hmodel hphase hst hs he hl' hlinked
    obtain ⟨hmem, rfl⟩ := Session.known?_mem he₂
    refine ⟨ht, ?_⟩
    by_cases href : e.ref = e₂.ref
    swap
    · refine ⟨e₂, (hI.drafts ht).known?_eq (List.mem_map.2 ⟨e₂, hmem, ?_⟩), hl, before, hread⟩
      exact if_neg (by simpa using fun h => href h.symm)
    · obtain rfl := Session.eq_of_ref_eq (hI.drafts hs).distinct he hmem href
      -- The link that is read now was not read before, so it is another one.
      have hne : l.name ≠ l'.name := by
        rintro heq
        have hknown := (hI.drafts hs₀).known?_eq he₀
        rw [href₀] at hknown
        obtain rfl := Option.some.inj (hknown.symm.trans he₁)
        rw [← heq, hread₁] at hst
        cases hst
      refine ⟨_, Session.known?_modify (f := fun e => e.setLink l'.name _) (fun _ => rfl) he₂, hl,
        before, ?_⟩
      rw [Entry.linkState_setLink_of_ne _ hne, hread]

end Catalog

/-- The session has read a relationship of a record to one, which leads nowhere. -/
def Relationship.IsBlank (rel : Relationship) (r : Ref) (s : Session) : Prop :=
  ∃ l : Link, rel.isMany = false ∧ l.isList = false ∧ l.name = rel.name ∧ s.Leads r l []

/-- A required field of an entity has nothing, as far as the session knows. -/
inductive Entity.Lacks (D : Database) (e : Entity Ref) (s : Session) : Prop
  | property (p : Property) (mem : p ∈ e.type.properties.filter Property.required)
      (blank : s.HasCell D e.record p.name .null)
  | relationship (rel : Relationship)
      (mem : rel ∈ e.type.relationships.filter Relationship.required)
      (blank : rel.IsBlank e.record s)

/-- Something is wrong with an entity, whatever the rules of its type say. -/
def Entity.Faulty (D : Database) (e : Entity Ref) (s : Session) : Prop :=
  e.payloadErrors ≠ [] ∨ e.type.isAbstract = true ∨ e.Lacks D s

namespace Act

variable {α : Type} {c : Catalog} {D : Database} {I : Session → Prop} {s : Session}

/-- What a test establishes where it is true holds of all members that filtering leaves. -/
theorem ends_filterM_marks {f : α → Act Bool} {J : α → Session → Prop} {xs : List α}
    (hkeep : ∀ a ∈ xs, ∀ b ∈ xs, Keeps (fun t => I t ∧ J b t) (f a) fun _ => True)
    (hmark : ∀ a ∈ xs, ∀ t, I t → Ends (f a) t (fun b u => I u ∧ (b = true → J a u)) fun _ u => I u)
    (hs : I s) : Ends (xs.filterM f) s (fun ys t => I t ∧ ∀ y ∈ ys, y ∈ xs ∧ J y t)
      fun _ t => I t := by
  induction xs generalizing s with
  | nil =>
    rw [filterM_nil]
    exact ⟨hs, by simp⟩
  | cons x xs ih =>
    rw [filterM_cons, ends_bind]
    refine (hmark x List.mem_cons_self s hs).imp (fun b t ⟨ht, hb⟩ => ?_) fun _ _ h => h
    have hrest := ih (s := t) (fun a ha b hb => hkeep a (List.mem_cons_of_mem _ ha) b
      (List.mem_cons_of_mem _ hb)) (fun a ha => hmark a (List.mem_cons_of_mem _ ha)) ht
    rw [ends_bind]
    cases b with
    | false =>
      exact hrest.imp (fun ys u ⟨hu, hys⟩ => ⟨hu, fun y hy =>
        ⟨List.mem_cons_of_mem _ (hys y hy).1, (hys y hy).2⟩⟩) fun _ _ h => h
    | true =>
      have hx : Keeps (fun t => I t ∧ J x t) (xs.filterM f) fun _ => True :=
        (keeps_filterM fun a ha => hkeep a (List.mem_cons_of_mem _ ha) x List.mem_cons_self).true
      refine (hrest.and (hx t ⟨ht, hb rfl⟩)).imp (fun ys u ⟨⟨hu, hys⟩, hxu⟩ => ⟨hu, fun y hy => ?_⟩)
        fun _ _ h => h.1
      rcases List.mem_cons.1 hy with rfl | hy
      · exact ⟨List.mem_cons_self, hxu.1.2⟩
      · exact ⟨List.mem_cons_of_mem _ (hys y hy).1, (hys y hy).2⟩

/-- Filtering leaves a member for which the test is true at any time. -/
theorem keeps_filterM_finds {f : α → Act Bool} {xs : List α} {x : α} (hx : x ∈ xs)
    (hkeep : ∀ a ∈ xs, Keeps I (f a) fun _ => True) (hfind : Keeps I (f x) fun b => b = true) :
    Keeps I (xs.filterM f) fun ys => x ∈ ys := by
  induction xs with
  | nil => cases hx
  | cons y xs ih =>
    rw [filterM_cons]
    rcases List.mem_cons.1 hx with rfl | hx
    · refine hfind.bind fun b hb => (keeps_filterM fun a ha =>
        hkeep a (List.mem_cons_of_mem _ ha)).true.bind fun ys _ => keeps_pure ?_
      rw [if_pos hb]
      exact List.mem_cons_self
    · refine (hkeep y List.mem_cons_self).bind fun b _ =>
        (ih hx fun a ha => hkeep a (List.mem_cons_of_mem _ ha)).bind fun ys hys => keeps_pure ?_
      split
      · exact List.mem_cons_of_mem _ hys
      · exact hys

variable (hI : c.Reading D I) (hp : c.Plain) (hD : c.Sound D) {reg : Registry} {book : RuleBook}

include hI hp hD

/-- Reading leaves a blank relationship blank. -/
theorem keeps_isBlank {x : Act α} (r : Ref) (rel : Relationship)
    (h : ∀ {J : Session → Prop}, KeepsGraph J (entitiesOf c reg book).graph →
      Keeps J x fun _ => True) : Keeps (fun t => I t ∧ rel.IsBlank r t) x fun _ => True := by
  rintro t ⟨ht, l, hmany, hlist, hname, hleads⟩
  exact (h ((hI.leads r l []).keepsGraph hp hD reg book) t ⟨ht, hleads⟩).imp
    (fun _ _ hu => ⟨⟨hu.1.1, l, hmany, hlist, hname, hu.1.2⟩, trivial⟩)
    fun _ _ hu => ⟨hu.1, l, hmany, hlist, hname, hu.2⟩

/-- A property that is found to have nothing is known to have nothing. -/
theorem ends_value_isNull {e : Entity Ref} {m : Model} (hm : c.model? e.record.model = some m)
    (ht : c.Presents reg book e.type m) {p : Property} (hmem : p ∈ e.type.properties) (hs : I s) :
    Ends (do
      let v ← (entitiesOf c reg book).graph.storage.value e.record p.name
      pure v.isNull) s
      (fun b t => I t ∧ (b = true → t.HasCell D e.record p.name .null)) fun _ t => I t := by
  refine (reads_fieldValue hI hp hD e.record p.name).ends_bind hs
    (fun v t hst _ hread => ⟨hst, fun hv => ?_⟩) fun _ _ h _ => h
  obtain ⟨x, hx, hcell⟩ := hread
  obtain ⟨hxmem, href⟩ := Session.known?_mem hx
  obtain rfl : x.model = m :=
    Option.some.inj ((href ▸ ((hI.drafts hs).draft x hxmem).model?_eq hp).symm.trans hm)
  obtain ⟨y, hy, -⟩ := ht.column p hmem
  obtain ⟨rfl, rfl⟩ := hcell y hy
  refine ⟨x, y, hx, hy, ?_⟩
  cases hc : x.cell D p.name <;> simp_all [Value.isNull]

variable (reg book) in
/-- A relationship that is found to lead to nothing is known to be blank. -/
theorem ends_related_isNothing (r : Ref) (rel : Relationship) (hs : I s) :
    Ends (do
      let x ← (entitiesOf c reg book).graph.storage.related r rel
      pure x.isNothing) s
      (fun b t => I t ∧ (b = true → rel.IsBlank r t)) fun _ t => I t := by
  refine (reads_related hI hp hD r rel).ends_bind hs
    (fun x t hst _ hread => ⟨hst, fun hnothing => ?_⟩) fun _ _ h _ => h
  obtain ⟨y, l, xs, _, hl, hleads, hx⟩ := hread
  have hname : l.name = rel.name := by simpa using List.find?_some hl
  rw [hx, Link.related] at hnothing
  cases hmany : rel.isMany <;> cases hlist : l.isList <;> cases xs <;>
    simp [hmany, hlist, Related.isNothing] at hnothing
  exact ⟨l, hmany, hlist, hname, hleads⟩

/-- A cell that is known to have nothing is found to have nothing. -/
theorem keeps_value_isNull (r : Ref) (name : String) :
    Keeps (fun t => I t ∧ t.HasCell D r name .null) (do
      let v ← (entitiesOf c reg book).graph.storage.value r name
      pure v.isNull) fun b => b = true := by
  refine fun t ht => (reads_fieldValue (hI.hasCell r name .null) hp hD r name).ends_bind ht
    (fun v u hu _ hread => ⟨hu, ?_⟩) fun _ _ h _ => h
  obtain ⟨x, hx, hcell⟩ := hread
  obtain ⟨x', y, hx', hy, hnull⟩ := ht.2
  obtain rfl := Option.some.inj (hx.symm.trans hx')
  rw [(hcell y hy).2, hnull]
  rfl

/-- A relationship that is known to lead to nothing is found to lead to nothing. -/
theorem keeps_related_isNothing (r : Ref) {rel : Relationship} {l : Link}
    (hmany : rel.isMany = false) (hlist : l.isList = false) (hname : l.name = rel.name) :
    Keeps (fun t => I t ∧ t.Leads r l []) (do
      let x ← (entitiesOf c reg book).graph.storage.related r rel
      pure x.isNothing) fun b => b = true := by
  refine fun t ht => (reads_related (hI.leads r l []) hp hD r rel).ends_bind ht
    (fun x u hu _ hread => ⟨hu, ?_⟩) fun _ _ h _ => h
  obtain ⟨y, l', xs, _, hl', hleads', hx⟩ := hread
  obtain ⟨z, hz, hmem, before, hread⟩ := hu.2
  obtain ⟨z', hz', hmem', before', hread'⟩ := hleads'
  obtain rfl := Option.some.inj (hz.symm.trans hz')
  have hmodel := ((hI.drafts hu.1).draft z (Session.known?_mem hz).1).model
  have hname' : l'.name = rel.name := by simpa using List.find?_some hl'
  obtain rfl : l = l' := Option.some.inj ((hp.link?_eq hmodel hmem).symm.trans
    (hname.trans hname'.symm ▸ hp.link?_eq hmodel hmem'))
  obtain rfl : xs = [] := by
    rw [hread] at hread'
    exact (LinkState.read.inj hread').2.symm
  rw [hx, hmany, Link.related, hlist]
  rfl

/-- If required fields are found to be blank, they are known to be. -/
theorem ends_blanks_lacks {e : Entity Ref} {m : Model} (hm : c.model? e.record.model = some m)
    (ht : c.Presents reg book e.type m) (hs : I s) :
    Ends (e.blanks (entitiesOf c reg book).graph) s
      (fun names t => I t ∧ (names ≠ [] → e.Lacks D t)) fun _ t => I t := by
  -- What is found to be blank is so from then on, whatever else is read.
  have hmarked : ∀ p, KeepsGraph (fun t => I t ∧ t.HasCell D e.record p .null)
      (entitiesOf c reg book).graph := fun p =>
    (hI.hasCell e.record p .null).keepsGraph hp hD reg book
  unfold Entity.blanks
  rw [ends_bind]
  refine (ends_filterM_marks (fun q _ p _ => (hmarked p.name).valueIsNull e.record q.name)
    (fun p hmem t => ends_value_isNull hI hp hD hm ht (List.mem_filter.1 hmem).1) hs).imp
    (fun ps t hfound => ?_) fun _ _ h => h
  obtain ⟨ht, hps⟩ := hfound
  have hrest := ends_filterM_marks (J := fun (rel : Relationship) t => rel.IsBlank e.record t)
    (fun q _ rel _ => keeps_isBlank hI hp hD e.record rel fun hg =>
      hg.relatedIsNothing e.record q)
    (fun rel (_ : rel ∈ e.type.relationships.filter Relationship.required) t =>
      ends_related_isNothing hI hp hD reg book e.record rel) ht
  rw [ends_bind]
  cases ps with
  | nil =>
    refine hrest.imp (fun rs u hfound => ⟨hfound.1, fun hne => ?_⟩) fun _ _ h => h
    obtain ⟨hu, hrs⟩ := hfound
    cases rs with
    | nil => exact (hne rfl).elim
    | cons rel rs =>
      obtain ⟨hrel, hlacks⟩ := hrs rel List.mem_cons_self
      exact .relationship rel hrel hlacks
  | cons p ps =>
    obtain ⟨hmem, hblank⟩ := hps p List.mem_cons_self
    have hkept : Keeps (fun t => I t ∧ t.HasCell D e.record p.name .null)
        ((e.type.relationships.filter Relationship.required).filterM fun rel => do
          let x ← (entitiesOf c reg book).graph.storage.related e.record rel
          pure x.isNothing) fun _ => True :=
      (keeps_filterM fun rel _ => (hmarked p.name).relatedIsNothing e.record rel).true
    exact (hkept t ⟨ht, hblank⟩).imp (fun rs u hu => ⟨hu.1.1, fun _ => .property p hmem hu.1.2⟩)
      fun _ _ h => h.1

/-- Required fields that are known to be blank are found to be. -/
theorem ends_blanks_of_lacks {e : Entity Ref} (h : e.Lacks D s) (hs : I s) :
    Ends (e.blanks (entitiesOf c reg book).graph) s (fun names t => I t ∧ names ≠ [])
      fun _ t => I t := by
  cases h with
  | property p hmem hblank =>
    have hg := (hI.hasCell e.record p.name .null).keepsGraph hp hD reg book
    have hblanks : Keeps (fun t => I t ∧ t.HasCell D e.record p.name .null)
        (e.blanks (entitiesOf c reg book).graph) fun names => names ≠ [] :=
      (keeps_filterM_finds hmem (fun q _ => hg.valueIsNull e.record q.name)
        (keeps_value_isNull hI hp hD e.record p.name)).bind fun ps hps =>
          (keeps_filterM fun rel _ => hg.relatedIsNothing e.record rel).bind
            fun rs _ => keeps_pure (by simp [List.ne_nil_of_mem hps])
    exact (hblanks s ⟨hs, hblank⟩).imp (fun _ _ ht => ⟨ht.1.1, ht.2⟩) fun _ _ ht => ht.1
  | relationship rel hmem hblank =>
    obtain ⟨l, hmany, hlist, hname, hleads⟩ := hblank
    have hg := (hI.leads e.record l []).keepsGraph hp hD reg book
    have hblanks : Keeps (fun t => I t ∧ t.Leads e.record l [])
        (e.blanks (entitiesOf c reg book).graph) fun names => names ≠ [] :=
      (keeps_filterM fun p _ => hg.valueIsNull e.record p.name).bind fun ps _ =>
        (keeps_filterM_finds hmem (fun q _ => hg.relatedIsNothing e.record q)
          (keeps_related_isNothing hI hp hD e.record hmany hlist hname)).bind
            fun rs hrs => keeps_pure (by simp [List.ne_nil_of_mem hrs])
    exact (hblanks s ⟨hs, hleads⟩).imp (fun _ _ ht => ⟨ht.1.1, ht.2⟩) fun _ _ ht => ht.1

/-! ## Errors -/

variable {e : Entity Ref} {m : Model}

omit hI hp hD in
/-- Where no rules are checked, what is wrong is what is wrong with the entity itself. -/
theorem errors_eq {g : ResourceGraph Act Ref} {y : Context}
    (hrules : e.type.validators.filter (·.applies y) = []) : e.errors g y = (do
      let own ← if y = .default then e.ownErrors g else pure []
      pure (Errors.merge own)) := by
  simp [Entity.errors, Entity.verdicts, hrules]

omit hI hp hD in
theorem merge_ownErrors_eq_nil (names : List String) : Errors.merge
    (e.payloadErrors :: (if e.type.isAbstract then
      [[("type", ["Cannot save an abstract entity type"])]] else []) ++
        [names.map fun name => (name, [s!"{name} must not be blank"])]) = [] ↔
      e.payloadErrors = [] ∧ e.type.isAbstract = false ∧ names = [] := by
  rw [Errors.merge_eq_nil]
  cases e.type.isAbstract <;> simp

/-- An entity in which something is found to be wrong is known to be faulty. -/
theorem ends_errors_faulty (hm : c.model? e.record.model = some m)
    (ht : c.Presents reg book e.type m) (hs : I s) :
    Ends (e.errors (entitiesOf c reg book).graph .default) s
      (fun es t => I t ∧ (es ≠ [] → e.Faulty D t)) fun _ t => I t := by
  rw [errors_eq ht.rules_default, if_pos rfl, Entity.ownErrors, bind_assoc, ends_bind]
  refine (ends_blanks_lacks hI hp hD hm ht hs).imp
    (fun names t ⟨ht, hlacks⟩ => ⟨ht, fun hne => ?_⟩) fun _ _ h => h
  by_contra hno
  simp only [Entity.Faulty, not_or, not_not] at hno
  refine hne ((merge_ownErrors_eq_nil names).2 ⟨hno.1, by simpa using hno.2.1, ?_⟩)
  by_contra hnames
  exact hno.2.2 (hlacks hnames)

/-- In an entity that is known to be faulty something is found to be wrong. -/
theorem ends_errors_of_faulty (ht : c.Presents reg book e.type m) (h : e.Faulty D s) (hs : I s) :
    Ends (e.errors (entitiesOf c reg book).graph .default) s
      (fun es t => I t ∧ es ≠ []) fun _ t => I t := by
  have hblanks : Ends (e.blanks (entitiesOf c reg book).graph) s (fun names t => I t ∧
      ¬(e.payloadErrors = [] ∧ e.type.isAbstract = false ∧ names = [])) fun _ t => I t := by
    rcases h with hpayload | habstract | hlacks
    · exact ((hI.keepsGraph hp hD reg book).blanks e s hs).imp
        (fun _ _ ht => ⟨ht.1, fun hno => hpayload hno.1⟩) fun _ _ h => h
    · exact ((hI.keepsGraph hp hD reg book).blanks e s hs).imp
        (fun _ _ ht => ⟨ht.1, fun hno => by simp [habstract] at hno⟩) fun _ _ h => h
    · exact (ends_blanks_of_lacks hI hp hD hlacks hs).imp
        (fun _ _ ht => ⟨ht.1, fun hno => ht.2 hno.2.2⟩) fun _ _ h => h
  rw [errors_eq ht.rules_default, if_pos rfl, Entity.ownErrors, bind_assoc, ends_bind]
  exact hblanks.imp (fun names t ⟨ht, hne⟩ =>
    ⟨ht, fun hnil => hne ((merge_ownErrors_eq_nil names).1 hnil)⟩) fun _ _ h => h

omit hI hp hD in
/-- Nothing is wrong with a new entity beyond what is wrong in the default context. -/
theorem errors_create (ha : e.type.AdmitsAll) :
    e.errors (entitiesOf c reg book).graph .create = pure [] := by
  rw [errors_eq ha.rules_create, if_neg (by decide), pure_bind]
  rfl

/-- A new entity that is not valid is known to be faulty. -/
theorem ends_valid_faulty (hm : c.model? e.record.model = some m)
    (ht : c.Presents reg book e.type m) (ha : e.type.AdmitsAll) (hs : I s) :
    Ends (e.valid (entitiesOf c reg book).graph [.default, .create]) s
      (fun b t => I t ∧ (b = false → e.Faulty D t)) fun _ t => I t := by
  have hvalid : e.valid (entitiesOf c reg book).graph [.default, .create] = (do
      let es ← e.errors (entitiesOf c reg book).graph .default
      pure es.isEmpty) := by
    simp only [Entity.valid, List.isEmpty_cons, Bool.false_eq_true, if_false, Entity.validIn,
      errors_create ha, pure_bind, List.isEmpty_nil, if_true]
    refine bind_congr fun es => ?_
    cases es.isEmpty <;> rfl
  rw [hvalid, ends_bind]
  exact (ends_errors_faulty hI hp hD hm ht hs).imp (fun es t ⟨ht, hes⟩ => ⟨ht, fun hempty =>
    hes (by rintro rfl; cases hempty)⟩) fun _ _ h => h

/-- A new entity that is known to be faulty is shown by its errors. -/
theorem ends_entity_faulty (ht : c.Presents reg book e.type m) (ha : e.type.AdmitsAll)
    (h : e.Faulty D s) (hs : I s) (w : Renderer) :
    Ends (w.entity (entitiesOf c reg book).graph e .create false) s
      (fun x t => I t ∧ ∃ es, x = .ofErrors es) fun _ t => I t := by
  have hgate : Ends (Renderer.gateErrors (entitiesOf c reg book).graph e .create) s
      (fun es t => I t ∧ es ≠ []) fun _ t => I t := by
    rw [Renderer.gateErrors, ends_bind]
    refine (ends_errors_of_faulty hI hp hD ht h hs).imp (fun es t ⟨ht', hne⟩ => ?_) fun _ _ h => h
    rw [if_neg (by decide), errors_create ha, pure_bind]
    refine ⟨ht', fun hnil => hne ?_⟩
    exact Errors.merge_eq_nil.1 hnil es (by simp)
  change Ends (Renderer.gateErrors (entitiesOf c reg book).graph e .create >>= _) s _ _
  rw [ends_bind]
  refine hgate.imp (fun es t ⟨ht, hne⟩ => ?_) fun _ _ h => h
  rw [if_neg (by simpa using hne)]
  exact ⟨ht, es, rfl⟩

end Act

end Hypermedia
