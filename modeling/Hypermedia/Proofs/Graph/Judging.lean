import Hypermedia.Proofs.Graph.Typed
import Hypermedia.Proofs.Validation.Merging

/-!
# What is wrong with entities

Nothing is wrong with the entity of a stored record as far as no rule of its type says so
(`Act.reads_errors`): no required field is blank, and the type is not abstract. What the rules
say depends on the values of the record alone (`ResourceType.Passes`), so what was found valid
before a writing still is after it.
-/

namespace Hypermedia

/-! ## Rules that say nothing -/

/-- The rule has nothing to say about these values. -/
def Validator.IsSilent (book : RuleBook) (value : String → Value) (v : Validator) : Prop :=
  ∃ rule, book.get v.rule = .ok rule ∧
    (rule.verdict (value rule.field) >>= Errors.ofVerdict) = .ok []

/-- The rules of a type that are checked in a context have nothing to say about these
values. -/
def ResourceType.Passes (t : ResourceType) (book : RuleBook) (x : Context)
    (value : String → Value) : Prop :=
  ∀ v ∈ t.validators.filter (·.applies x), v.IsSilent book value

/-- Where a rule is silent that says something when a condition holds, the condition does not
hold. -/
theorem Rule.holds_of_silent {c : Condition} {message v : Value}
    (hmessage : Errors.ofVerdict message ≠ .ok [])
    (h : ((Rule.when c message).verdict v >>= Errors.ofVerdict) = .ok []) :
    c.test.holds v c.operand = .ok false := by
  change (c.test.holds v c.operand).map _ >>= Errors.ofVerdict = .ok [] at h
  cases hholds : c.test.holds v c.operand with
  | error f =>
    rw [hholds] at h
    cases h
  | ok b =>
    cases b with
    | false => rfl
    | true =>
      rw [hholds] at h
      exact absurd h hmessage

/-- No rule of the type is checked for new records. -/
def ResourceType.AdmitsAll (t : ResourceType) : Prop := ∀ v ∈ t.validators, v.create = false

theorem ResourceType.AdmitsAll.rules_create {t : ResourceType} (h : t.AdmitsAll) :
    t.validators.filter (·.applies .create) = [] := by
  refine List.filter_eq_nil_iff.2 fun v hv => ?_
  simp [Validator.applies, h v hv]

theorem ResourceType.AdmitsAll.passes {t : ResourceType} (h : t.AdmitsAll) (book : RuleBook)
    (value : String → Value) : t.Passes book .create value := by
  simp [ResourceType.Passes, h.rules_create]

/-- A record stays known with its values while a session only reads. -/
theorem Session.SeenFrom.known? {c : Catalog} {D : Database} {s t : Session} (h : s.SeenFrom t)
    (ht : c.Drafts D t) {r : Ref} {e : Entry} (he : s.known? r = some e) : ∃ e',
      t.known? r = some e' ∧ e'.model = e.model ∧ ∀ name, e'.cell D name = e.cell D name := by
  obtain ⟨hmem, rfl⟩ := Session.known?_mem he
  obtain ⟨e', he', href, hmodel, -, hkey, hvalues⟩ := h e hmem
  refine ⟨e', href ▸ ht.known?_eq he', hmodel, fun name => ?_⟩
  simp [Entry.cell, Entry.row?, Entry.given?, hmodel, hkey, hvalues]

namespace Catalog

variable {c : Catalog} {D : Database} {I : Session → Prop} {reg : Registry} {book : RuleBook}

/-- No rules are checked but those of the methods. -/
theorem Presents.rules_default {t : ResourceType} {m : Model} (h : c.Presents reg book t m) :
    t.validators.filter (·.applies .default) = [] := by
  refine List.filter_eq_nil_iff.2 fun v hv => ?_
  simp [Validator.applies, (h.rule v hv).1]

/-- A property that reading keeps is kept along with what was known before. -/
theorem Reading.seen (hI : c.Reading D I) (s₀ : Session) :
    c.Reading D fun s => I s ∧ s₀.SeenFrom s where
  drafts := fun h => hI.drafts h.1
  receive := fun h hnew hn hno => ⟨hI.receive h.1 hnew hn hno, h.2.trans (.receive _ _ _ _)⟩
  readLink := fun h₀ hseen he₀ hr hm hph hst h he hl hlinked =>
    ⟨hI.readLink h₀.1 hseen he₀ hr hm hph hst h.1 he hl hlinked, h.2.trans (.setLink _ _ _ _)⟩

end Catalog

namespace Act

variable {α : Type} {c : Catalog} {D : Database} {H : Ref → Prop} {I : Session → Prop}
  {s : Session} {reg : Registry} {book : RuleBook}

/-- An action that keeps what was known, whatever that is, only reads. -/
theorem Reads.of_keeps {x : Act α} {P : α → Prop}
    (h : Keeps (fun t => I t ∧ s.SeenFrom t) x P) : Reads I x s (fun _ a => P a) True :=
  fun hs => (h s ⟨hs, .refl s⟩).imp (fun _ _ h => ⟨h.1.1, h.1.2, h.2⟩)
    fun _ _ h => ⟨h.1, h.2, trivial⟩

section

variable (hI : c.Reading D I) (hp : c.Plain) (hD : c.Sound D)

include hI hp hD

/-- A rule is silent, or it says something, or judging by it fails. -/
theorem reads_verdict {e : Entity Ref} {x : Entry} (he : s.known? e.record = some x)
    {v : Validator} {rule : Rule} {y : MappedColumn} (hrule : book.get v.rule = .ok rule)
    (hy : x.model.column? rule.field = some y) : Reads I (do
      let verdict ← (entitiesOf c reg book).graph.judge v.rule e
      MonadExcept.ofExcept (Errors.ofVerdict verdict)) s
      (fun t es => t = s ∧ (es = [] ↔ v.IsSilent book (x.cell D)))
      (¬v.IsSilent book (x.cell D)) := by
  have hsilent : v.IsSilent book (x.cell D) ↔
      (rule.verdict (x.cell D rule.field) >>= Errors.ofVerdict) = .ok [] := by
    refine ⟨fun ⟨rule', hrule', h⟩ => ?_, fun h => ⟨rule, hrule, h⟩⟩
    obtain rfl := Except.ok.inj (hrule.symm.trans hrule')
    exact h
  change Reads I ((do
    let rule ← MonadExcept.ofExcept (book.get v.rule)
    let v ← fieldValue c e.record rule.field
    MonadExcept.ofExcept (rule.verdict v)) >>= fun verdict =>
      MonadExcept.ofExcept (Errors.ofVerdict verdict)) s _ _
  rw [monadOfExcept_eq, hrule, ofExcept_ok, pure_bind, bind_assoc]
  refine ((reads_cell hI hp hD he hy).imp (fun _ _ _ _ h => h) False.elim).bind ?_
  rintro w t - - ⟨rfl, rfl⟩
  rw [hsilent, monadOfExcept_eq]
  cases hw : rule.verdict (x.cell D rule.field) with
  | error f => exact reads_throw (f := f) fun _ h => nomatch h
  | ok verdict =>
    rw [ofExcept_ok, pure_bind, monadOfExcept_eq]
    refine reads_ofExcept (fun es hes => ⟨rfl, ?_⟩) fun f hf => ?_
    · change _ ↔ Errors.ofVerdict verdict = .ok []
      rw [hes, Except.ok.injEq]
    · change ¬Errors.ofVerdict verdict = .ok []
      simp [hf]

/-- The rules of a type are silent exactly if their verdicts are no errors. -/
theorem reads_verdicts {e : Entity Ref} {x : Entry} (he : s.known? e.record = some x)
    (hrule : ∀ v ∈ e.type.validators, ∃ rule y, book.get v.rule = .ok rule ∧
      x.model.column? rule.field = some y) (k : Context) :
    Reads I (e.verdicts (entitiesOf c reg book).graph k) s
      (fun t es => t = s ∧ ((∀ y ∈ es, y = []) ↔ e.type.Passes book k (x.cell D)))
      (¬e.type.Passes book k (x.cell D)) := by
  have hrule' : ∀ v ∈ e.type.validators.filter (·.applies k), ∃ rule y,
      book.get v.rule = .ok rule ∧ x.model.column? rule.field = some y :=
    fun v hv => hrule v (List.mem_filter.1 hv).1
  unfold Entity.verdicts ResourceType.Passes
  generalize e.type.validators.filter (·.applies k) = vs at hrule' ⊢
  induction vs with
  | nil =>
    rw [List.mapM_nil]
    exact reads_pure fun _ => by simp
  | cons v vs ih =>
    obtain ⟨rule, y, hget, hy⟩ := hrule' v List.mem_cons_self
    rw [List.mapM_cons]
    refine ((reads_verdict hI hp hD he hget hy).imp (fun _ _ _ _ h => h) fun h hall => ?_).bind ?_
    · exact h (hall v List.mem_cons_self)
    rintro es t - - ⟨rfl, hes⟩
    refine ((ih fun v hv => hrule' v (List.mem_cons_of_mem _ hv)).imp (fun _ _ _ _ h => h)
      fun h hall => h fun v hv => hall v (List.mem_cons_of_mem _ hv)).bind ?_
    rintro ess t - - ⟨rfl, hess⟩
    exact reads_pure fun _ => by simp [hes, hess]

end

/-! ## Entities of stored records -/

section

variable (hI : c.Reading D I) (hq : ∀ s, I s → c.Quiet D s) (hp : c.Plain) (hD : c.Sound D)
  (hx : c.Exposed reg book)

include hI hq hp hD hx

/-- No required field of a stored record is blank. -/
theorem reads_blanks {e : Entity Ref} {m : Model} {k : Int} {row : Row}
    (he : c.Typed reg D s e m k row) :
    Reads I (e.blanks (entitiesOf c reg book).graph) s (fun _ names => names = []) False := by
  obtain ⟨-, hpresents⟩ := hx.presents_of_typeOf he.mem he.type
  refine (reads_filterM (E := False) (Q := fun _ => False) fun p hmem t hst => ?_).bind
    fun ps t _ hst hps => (reads_filterM (E := False) (Q := fun _ => False)
      fun rel hmem u htu => ?_).bind fun rs u _ _ hrs => reads_pure fun _ => ?_
  · obtain ⟨hp', hrequired⟩ := List.mem_filter.1 hmem
    obtain ⟨y, hy, hnull⟩ := hpresents.column p hp'
    intro ht
    obtain ⟨x, hknown, -, hmodel, -, hcell⟩ := (hq t ht).known? hp (he.toKnown.mono hst)
    revert ht
    refine (reads_cell hI hp hD hknown (hmodel ▸ hy)).bind fun v u _ _ h =>
      reads_pure fun _ hv => ?_
    rw [h.2, hcell] at hv
    refine he.toKnown.ne_null hp hD hy (hnull hrequired) ?_
    cases hrow : Row.get row p.name <;> simp_all [Value.isNull]
  · obtain ⟨hrel, hrequired⟩ := List.mem_filter.1 hmem
    refine (reads_relationship hI hq hp hD (he.toKnown.mono (hst.trans htu))
      hpresents.toDescribes hrel).bind ?_
    rintro x v - - ⟨l, xs, hl, hmany, hleads, rfl⟩
    refine reads_pure fun _ hnothing => ?_
    unfold Link.related at hnothing
    cases hlist : l.isList with
    | true => simp [hlist, Related.isNothing] at hnothing
    | false =>
      obtain ⟨l', column, y, hl', hkind, hy, hnull⟩ :=
        hpresents.required rel hrel hrequired (hmany.trans hlist)
      obtain rfl := Option.some.inj (hl.symm.trans hl')
      have hne := hleads.reference column hkind (he.toKnown.ne_null hp hD hy hnull)
      cases xs with
      | nil => exact hne rfl
      | cons z zs => simp [hlist, Related.isNothing] at hnothing
  · have hps : ps = [] := List.eq_nil_iff_forall_not_mem.2 fun p hmem => (hps p hmem).2
    have hrs : rs = [] := List.eq_nil_iff_forall_not_mem.2 fun r hmem => (hrs r hmem).2
    simp [hps, hrs]

/-- Nothing is wrong with a stored record if the rules of the context are silent. -/
theorem reads_errors {e : Entity Ref} {m : Model} {k : Int} {row : Row}
    (he : c.Typed reg D s e m k row) {y : Context} (hpass : e.type.Passes book y (Row.get row)) :
    Reads I (e.errors (entitiesOf c reg book).graph y) s (fun _ es => es = []) False := by
  obtain ⟨-, hpresents⟩ := hx.presents_of_typeOf he.mem he.type
  have hrest : ∀ (own : List Errors), (∀ es ∈ own, es = []) → ∀ t, s.SeenFrom t →
      Reads I (do
        let ruled ← e.verdicts (entitiesOf c reg book).graph y
        pure (Errors.merge (own ++ ruled))) t (fun _ es => es = []) False := by
    intro own hown t hst ht
    obtain ⟨x, hknown, -, hmodel, -, hcell⟩ := (hq t ht).known? hp (he.toKnown.mono hst)
    have hpass' : e.type.Passes book y (x.cell D) := by rwa [funext hcell]
    revert ht
    refine ((reads_verdicts hI hp hD hknown (fun v hv => ?_) y).imp (fun _ _ _ _ h => h.2)
      fun h => h hpass').bind fun ruled u _ _ hruled => reads_pure fun _ => ?_
    · obtain ⟨-, rule, z, hget, hz, -⟩ := hpresents.rule v hv
      exact ⟨rule, z, hget, hmodel ▸ hz⟩
    · rw [Errors.merge_eq_nil]
      exact fun es hes => (List.mem_append.1 hes).elim (hown es) (hruled.2 hpass' es)
  unfold Entity.errors
  refine reads_ite (fun _ => ?_) fun _ => hrest [] (by simp) s (.refl s)
  refine Reads.bind (P := fun _ own => ∀ es ∈ own, es = []) ?_ fun own t _ hst hown =>
    hrest own hown t hst
  refine (reads_blanks hI hq hp hD hx he).bind fun names t _ _ hnames => reads_pure fun _ => ?_
  simp [hnames, he.errors, hpresents.concrete he.built]

end

/-! ## Entities that are not written yet -/

section

variable (hI : c.Reading D I) (hp : c.Plain) (hD : c.Sound D)

include hI hp hD

omit hI hp hD in
/-- In the contexts of the methods only rules are checked. -/
theorem errors_of_ne_default {e : Entity Ref} {y : Context} (hy : y ≠ .default) :
    e.errors (entitiesOf c reg book).graph y = (do
      let ruled ← e.verdicts (entitiesOf c reg book).graph y
      pure (Errors.merge ruled)) := by
  unfold Entity.errors
  rw [if_neg hy, pure_bind]
  rfl

/-- In the context of a method nothing is wrong with an entity exactly if its rules are silent. -/
theorem reads_errors_method {e : Entity Ref} {x : Entry} (he : s.known? e.record = some x)
    (hrule : ∀ v ∈ e.type.validators, ∃ rule y, book.get v.rule = .ok rule ∧
      x.model.column? rule.field = some y) {y : Context} (hy : y ≠ .default) :
    Reads I (e.errors (entitiesOf c reg book).graph y) s
      (fun _ es => es = [] ↔ e.type.Passes book y (x.cell D)) True := by
  rw [errors_of_ne_default hy]
  refine ((reads_verdicts hI hp hD he hrule y).imp (fun _ _ _ _ h => h) fun _ => trivial).bind
    fun ruled u _ _ hruled => reads_pure fun _ => ?_
  exact Errors.merge_eq_nil.trans hruled.2

/-- If an entity is valid in the context of a method then its rules are silent. -/
theorem reads_valid_method {e : Entity Ref} {x : Entry} (he : s.known? e.record = some x)
    (hrule : ∀ v ∈ e.type.validators, ∃ rule y, book.get v.rule = .ok rule ∧
      x.model.column? rule.field = some y) {y : Context} (hy : y ≠ .default) :
    Reads I (e.valid (entitiesOf c reg book).graph [y]) s
      (fun _ b => b = true → e.type.Passes book y (x.cell D)) True :=
  (reads_errors_method hI hp hD he hrule hy).bind fun _ _ _ _ hes =>
    reads_ite (fun hnil => reads_pure fun _ _ => hes.1 (List.isEmpty_iff.1 hnil))
      fun _ => reads_pure fun _ h => nomatch h

/-- An entity that is found valid for a method has a payload without errors, and its rules for
the method are silent. -/
theorem reads_valid_default {e : Entity Ref} {x : Entry} (he : s.known? e.record = some x)
    (hrule : ∀ v ∈ e.type.validators, ∃ rule y, book.get v.rule = .ok rule ∧
      x.model.column? rule.field = some y) {y : Context} (hy : y ≠ .default) :
    Reads I (e.valid (entitiesOf c reg book).graph [.default, y]) s
      (fun _ b => b = true → e.payloadErrors = [] ∧ e.type.Passes book y (x.cell D))
      True := by
  have hg := (hI.seen s).keepsGraph hp hD reg book
  have hown := Reads.of_keeps (hg.errors_default e)
  refine hown.bind fun es t ht hst hes => reads_ite (fun hnil => ?_)
    fun _ => reads_pure fun _ h => nomatch h
  obtain ⟨x', hx', hmodel, hcell⟩ := hst.known? (hI.drafts ht) he
  rw [← funext hcell]
  refine (reads_valid_method hI hp hD hx' (fun v hv => ?_) hy).imp
    (fun _ _ _ _ hpass hb => ⟨hes (List.isEmpty_iff.1 hnil), hpass hb⟩) id
  obtain ⟨rule, z, hget, hz⟩ := hrule v hv
  exact ⟨rule, z, hget, hmodel ▸ hz⟩

end

end Act

end Hypermedia
