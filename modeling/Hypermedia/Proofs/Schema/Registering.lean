import Hypermedia.Proofs.Fields
import Hypermedia.Proofs.Outcome
import Hypermedia.Proofs.Schema.Inheriting

/-!
# Runs of registrations

`Registry.registerEach` registers types one after the other and goes on after those that fail.
One registration adds at most one type, at the end, whose name and plural name are new and whose
supertype is there (`Registry.register_cases`). So after any run the names are distinct, a
supertype stands before its subtypes, and what a name means does not change any more
(`Registry.registered`).

A registration that fails leaves the registry as it was, but for one case: the plural name of the
first type is not needed before the type is there (`Registry.register_of_error`).
-/

namespace Hypermedia.Registry

/-- Register types one after the other, whether or not some of them fail. -/
def registerEach : Registry → List ResourceType → Registry × List (Except Fault ResourceType)
  | r, [] => (r, [])
  | r, t :: ts =>
    let (next, outcome) := r.register t
    let (last, outcomes) := registerEach next ts
    (last, outcome :: outcomes)

variable {r : Registry} {t t' : ResourceType}

/-! ## One registration -/

/-- The number of the class of the records of a type. -/
def modelNumber? (t : ResourceType) : Option Nat := t.model.bind RecordClass.number?

theorem get?_eq_none {name : String} : r.get? name = none ↔ ∀ t ∈ r.types, t.name ≠ name := by
  simp [get?]

theorem checkPlural_eq_ok {new : ResourceType} {types : List ResourceType}
    (h : checkPlural new types = .ok ()) :
    ∀ old ∈ types, old.pluralName?.isSome = true ∧ new.pluralName?.isSome = true ∧
      old.pluralName? ≠ new.pluralName? := by
  induction types with
  | nil => simp
  | cons old types ih =>
    rw [checkPlural] at h
    split at h
    · next p q hp hq =>
      split at h
      · cases h
      · next hne =>
        refine List.forall_mem_cons.2 ⟨?_, ih h⟩
        rw [hp, hq]
        exact ⟨rfl, rfl, by simpa using hne⟩
    · cases h

/-- A type that may be added to the types of a registry. -/
structure Admits (r : Registry) (t : ResourceType) : Prop where
  name : ∀ old ∈ r.types, old.name ≠ t.name
  plural : ∀ old ∈ r.types, old.pluralName?.isSome = true ∧ t.pluralName?.isSome = true ∧
    old.pluralName? ≠ t.pluralName?
  supertype : ∀ n ∈ t.supertype, ∃ super ∈ r.types, super.name = n

theorem admits_of_prepare (h : r.prepare t = .ok t') :
    r.Admits t' ∧ t'.name = t.name ∧ t'.pluralName? = t.pluralName? := by
  unfold prepare at h
  split at h
  · cases h
  next hnew =>
  have hfree : ∀ old ∈ r.types, old.name ≠ t.name :=
    get?_eq_none.1 (by simpa [contains] using hnew)
  cases hsuper : t.supertype with
  | none =>
    simp only [hsuper, pure_bind] at h
    obtain ⟨⟨⟩, hplural, h⟩ := bind_eq_ok.1 h
    obtain rfl := pure_eq_ok.1 h
    exact ⟨⟨hfree, checkPlural_eq_ok hplural, by simp [hsuper]⟩, rfl, rfl⟩
  | some name =>
    simp only [hsuper, pure_bind] at h
    obtain ⟨super, hresolve, h⟩ := bind_eq_ok.1 h
    obtain ⟨⟨⟩, hplural, h⟩ := bind_eq_ok.1 h
    obtain rfl := pure_eq_ok.1 h
    refine ⟨⟨hfree, checkPlural_eq_ok hplural, fun n hn => ?_⟩, rfl, rfl⟩
    obtain rfl : super.name = n := Option.some.inj hn
    exact ⟨super, resolve_mem hresolve, rfl⟩

/-- A registration fails and changes nothing, or adds a type that may be added. It gives that
type, or fails because a first type has no plural name. -/
theorem register_cases (r : Registry) (t : ResourceType) :
    (∃ f, r.register t = (r, .error f)) ∨
      ∃ t', r.prepare t = .ok t' ∧ (r.register t).1 = ⟨r.types ++ [t']⟩ ∧
        ((r.register t).2 = .ok t' ∨
          (r.register t).2 = .error .noPlural ∧ r.types = [] ∧ t'.pluralName? = none) := by
  unfold register
  cases h : r.prepare t with
  | error f => exact Or.inl ⟨f, rfl⟩
  | ok t' =>
    refine Or.inr ⟨t', rfl, rfl, ?_⟩
    dsimp only
    by_cases hplural : t'.pluralName?.isSome = true
    · exact Or.inl (if_pos hplural)
    · refine Or.inr ⟨if_neg hplural, ?_, by simpa using hplural⟩
      refine List.eq_nil_iff_forall_not_mem.2 fun old hold => hplural ?_
      exact ((admits_of_prepare h).1.plural old hold).2.1

/-! ## What every run keeps -/

/-- The types of a registry that was built by registering them. -/
structure InOrder (r : Registry) : Prop where
  names : (r.types.map ResourceType.name).Nodup
  plurals : (r.types.map ResourceType.pluralName?).Nodup
  supertypes : ∀ before t after, r.types = before ++ t :: after →
    ∀ n ∈ t.supertype, ∃ super ∈ before, super.name = n

theorem inOrder_empty : Registry.empty.InOrder := by
  constructor <;> simp [Registry.empty]

theorem InOrder.append (h : r.InOrder) (ht : r.Admits t) :
    InOrder ⟨r.types ++ [t]⟩ where
  names := by
    rw [List.map_append, List.nodup_append]
    exact ⟨h.names, by simp, by simpa using ht.name⟩
  plurals := by
    rw [List.map_append, List.nodup_append]
    exact ⟨h.plurals, by simp, by simpa using fun old hold => (ht.plural old hold).2.2⟩
  supertypes := by
    intro before x after heq n hn
    rcases List.eq_nil_or_concat after with rfl | ⟨after', y, rfl⟩
    · obtain ⟨rfl, hx⟩ := List.append_inj' heq rfl
      obtain rfl := List.singleton_inj.1 hx
      exact ht.supertype n hn
    · have heq' : r.types ++ [t] = (before ++ x :: after') ++ [y] := by simpa using heq
      exact h.supertypes before x after' (List.append_inj' heq' rfl).1 n hn

theorem InOrder.register (h : r.InOrder) (t : ResourceType) : (r.register t).1.InOrder := by
  rcases r.register_cases t with ⟨f, hkept⟩ | ⟨t', hprepare, hadded, -⟩
  · rwa [hkept]
  · rw [hadded]
    exact h.append (admits_of_prepare hprepare).1

theorem InOrder.registerEach (h : r.InOrder) (ts : List ResourceType) :
    (r.registerEach ts).1.InOrder := by
  induction ts generalizing r with
  | nil => exact h
  | cons t ts ih => exact ih (h.register t)

theorem types_prefix_register (r : Registry) (t : ResourceType) :
    r.types <+: (r.register t).1.types := by
  rcases r.register_cases t with ⟨f, hkept⟩ | ⟨t', -, hadded, -⟩
  · exact hkept ▸ List.prefix_refl _
  · exact ⟨[t'], by rw [hadded]⟩

theorem types_prefix_registerEach (r : Registry) (ts : List ResourceType) :
    r.types <+: (r.registerEach ts).1.types := by
  induction ts generalizing r with
  | nil => exact List.prefix_refl _
  | cons t ts ih => exact (r.types_prefix_register t).trans (ih _)

/-- What a name means it means for the rest of a run. -/
theorem get?_registerEach {name : String} (h : r.get? name = some t) (ts : List ResourceType) :
    (r.registerEach ts).1.get? name = some t := by
  obtain ⟨added, hadded⟩ := r.types_prefix_registerEach ts
  have happend := get?_append h added
  rwa [hadded] at happend

theorem InOrder.get?_eq_some (h : r.InOrder) {name : String} :
    r.get? name = some t ↔ t ∈ r.types ∧ t.name = name :=
  find?_key_eq_some h.names

theorem resolve_named_eq_ok {name : String} :
    r.resolve (.named name) = .ok t ↔ r.get? name = some t := by
  simp only [resolve]
  cases r.get? name <;> simp

/-! ## The types of classes of records -/

theorem ofModel?_eq_none {n : Nat} :
    r.ofModel? n = none ↔ ∀ t ∈ r.types, modelNumber? t ≠ some n := by
  simp [ofModel?, modelNumber?]

theorem ofModel?_eq_some {n : Nat} : r.ofModel? n = some t ↔
    ∃ before after, r.types = before ++ t :: after ∧ modelNumber? t = some n ∧
      ∀ x ∈ after, modelNumber? x ≠ some n := by
  unfold ofModel?
  rw [List.find?_eq_some_iff_append]
  constructor
  · rintro ⟨hmodel, after, before, htypes, hlast⟩
    refine ⟨before.reverse, after.reverse, ?_, by simpa [modelNumber?] using hmodel, ?_⟩
    · rw [← List.reverse_reverse r.types, htypes]
      simp
    · simpa [modelNumber?] using hlast
  · rintro ⟨before, after, htypes, hmodel, hlast⟩
    refine ⟨by simpa [modelNumber?] using hmodel, after.reverse, before.reverse, ?_, ?_⟩
    · rw [htypes]
      simp
    · simpa [modelNumber?] using hlast

theorem typeOf?_eq_none {x : RecordClass} : r.typeOf? x = none ↔
    ∀ n ∈ x.lineage, ∀ t ∈ r.types, modelNumber? t ≠ some n := by
  simp only [typeOf?, List.findSome?_eq_none_iff, ofModel?_eq_none]

theorem typeOf?_eq_some {x : RecordClass} : r.typeOf? x = some t ↔
    ∃ nearer n farther, x.lineage = nearer ++ n :: farther ∧ r.ofModel? n = some t ∧
      ∀ j ∈ nearer, ∀ y ∈ r.types, modelNumber? y ≠ some j := by
  simp only [typeOf?, List.findSome?_eq_some_iff, ofModel?_eq_none]

/-! ## Runs from the empty registry -/

/-- What one registration of a run adds: nothing, or a type of the name that may be added. If it
fails, only a first type without a plural name is added. -/
theorem exists_added (r : Registry) (t : ResourceType) :
    ∃ added, (r.register t).1.types = r.types ++ added ∧
      (∀ t', (r.register t).2 = .ok t' → added = [t'] ∧ t'.name = t.name) ∧
      ∀ f, (r.register t).2 = .error f →
        added = [] ∨ r.types = [] ∧ ∃ t', added = [t'] ∧ t'.pluralName? = none := by
  rcases r.register_cases t with ⟨f, hkept⟩ | ⟨t', hprepare, hadded, hresult⟩
  · exact ⟨[], by simp [hkept], by simp [hkept], fun _ _ => Or.inl rfl⟩
  · obtain ⟨-, hname, -⟩ := admits_of_prepare hprepare
    refine ⟨[t'], by rw [hadded], fun t₁ h => ?_, fun f h => Or.inr ?_⟩
    · rcases hresult with hok | ⟨herror, -⟩
      · obtain rfl := Except.ok.inj (hok.symm.trans h)
        exact ⟨rfl, hname⟩
      · rw [herror] at h
        cases h
    · rcases hresult with hok | ⟨-, hempty, hplural⟩
      · rw [hok] at h
        cases h
      · exact ⟨hempty, t', rfl, hplural⟩

theorem registerEach_append (r : Registry) (earlier later : List ResourceType) :
    (r.registerEach (earlier ++ later)).1 =
      ((r.registerEach earlier).1.registerEach later).1 := by
  induction earlier generalizing r with
  | nil => rfl
  | cons t earlier ih => exact ih _

/-- However types are registered one after the other: names and plural names are distinct, and
supertypes come first. Each registration adds its type at the end or fails, and from then on the
names mean their types. The type of a class of records is the last one for the nearest class of
the lineage that is the model of a type. -/
theorem registered (ts : List ResourceType) :
    (Registry.empty.registerEach ts).1.InOrder ∧
    (∀ earlier t later, ts = earlier ++ t :: later →
      ∃ added, ((Registry.empty.registerEach earlier).1.register t).1.types =
          (Registry.empty.registerEach earlier).1.types ++ added ∧
        (∀ t', ((Registry.empty.registerEach earlier).1.register t).2 = .ok t' →
          added = [t'] ∧ t'.name = t.name) ∧
        (∀ f, ((Registry.empty.registerEach earlier).1.register t).2 = .error f →
          added = [] ∨ (Registry.empty.registerEach earlier).1.types = [] ∧
            ∃ t', added = [t'] ∧ t'.pluralName? = none) ∧
        ∀ name t', t' ∈ (Registry.empty.registerEach earlier).1.types ++ added ∧ t'.name = name →
          (Registry.empty.registerEach ts).1.resolve (.named name) = .ok t') ∧
    (∀ name t, (Registry.empty.registerEach ts).1.resolve (.named name) = .ok t ↔
      t ∈ (Registry.empty.registerEach ts).1.types ∧ t.name = name) ∧
    ∀ x : RecordClass,
      ((Registry.empty.registerEach ts).1.typeOf? x = none ↔
        ∀ n ∈ x.lineage, ∀ t ∈ (Registry.empty.registerEach ts).1.types,
          modelNumber? t ≠ some n) ∧
      ∀ t, (Registry.empty.registerEach ts).1.typeOf? x = some t ↔
        ∃ nearer n farther before after, x.lineage = nearer ++ n :: farther ∧
          (∀ j ∈ nearer, ∀ y ∈ (Registry.empty.registerEach ts).1.types,
            modelNumber? y ≠ some j) ∧
          (Registry.empty.registerEach ts).1.types = before ++ t :: after ∧
          modelNumber? t = some n ∧ ∀ y ∈ after, modelNumber? y ≠ some n := by
  refine ⟨inOrder_empty.registerEach ts, fun earlier t later hts => ?_, fun name t => ?_,
    fun x => ⟨typeOf?_eq_none, fun t => ?_⟩⟩
  · obtain ⟨added, hadded, hok, herror⟩ :=
      exists_added (Registry.empty.registerEach earlier).1 t
    refine ⟨added, hadded, hok, herror, fun name t' ht' => ?_⟩
    have horder := (inOrder_empty.registerEach earlier).register t
    rw [← hadded, ← horder.get?_eq_some] at ht'
    rw [resolve_named_eq_ok, hts, registerEach_append]
    exact get?_registerEach ht' later
  · rw [resolve_named_eq_ok]
    exact (inOrder_empty.registerEach ts).get?_eq_some
  · rw [typeOf?_eq_some]
    simp only [ofModel?_eq_some]
    constructor
    · rintro ⟨nearer, n, farther, hlineage, ⟨before, after, htypes, hmodel, hlast⟩, hnone⟩
      exact ⟨nearer, n, farther, before, after, hlineage, hnone, htypes, hmodel, hlast⟩
    · rintro ⟨nearer, n, farther, before, after, hlineage, hnone, htypes, hmodel, hlast⟩
      exact ⟨nearer, n, farther, hlineage, ⟨before, after, htypes, hmodel, hlast⟩, hnone⟩

/-! ## Registrations that fail -/

/-- The first type of a registry has no plural name, and nothing else keeps it from being
registered. -/
def IsFirstUnnamed (r : Registry) (t : ResourceType) : Prop :=
  r.types = [] ∧ t.supertype = none ∧ t.pluralName? = none

theorem register_of_isFirstUnnamed (h : r.IsFirstUnnamed t) :
    r.register t = (⟨[t]⟩, .error .noPlural) := by
  obtain ⟨htypes, hsuper, hplural⟩ := h
  have hprepare : r.prepare t = .ok t := by
    simp [prepare, contains, get?, htypes, hsuper, checkPlural]
  simp [register, hprepare, htypes, hplural]

/-- Beside a type without a plural name no further type can be registered. -/
theorem exists_register_beside (h : t.pluralName? = none) (new : ResourceType) :
    ∃ f, (Registry.mk [t]).register new = (⟨[t]⟩, .error f) := by
  rcases (Registry.mk [t]).register_cases new with hkept | ⟨t', hprepare, -⟩
  · exact hkept
  · obtain ⟨hsome, -⟩ := (admits_of_prepare hprepare).1.plural t List.mem_cons_self
    rw [h] at hsome
    cases hsome

theorem registerEach_beside (h : t.pluralName? = none) (later : List ResourceType) :
    ((Registry.mk [t]).registerEach later).1 = ⟨[t]⟩ ∧
      ∀ x ∈ ((Registry.mk [t]).registerEach later).2, ∃ f, x = .error f := by
  induction later with
  | nil => exact ⟨rfl, by simp [registerEach]⟩
  | cons new later ih =>
    obtain ⟨f, hf⟩ := exists_register_beside h new
    rw [registerEach, hf]
    exact ⟨ih.1, List.forall_mem_cons.2 ⟨⟨f, rfl⟩, ih.2⟩⟩

/-- A registration that fails changes nothing, and what follows is as if it had not been tried.
Only a first type without a plural name stays although its registration fails, and then every
later one fails. -/
theorem register_of_error {f : Fault} (h : (r.register t).2 = .error f) :
    (¬r.IsFirstUnnamed t → (r.register t).1 = r ∧ ∀ later,
      r.registerEach (t :: later) =
        ((r.registerEach later).1, .error f :: (r.registerEach later).2)) ∧
    (r.IsFirstUnnamed t → (r.register t).1 = ⟨[t]⟩ ∧ ∀ later,
      (r.registerEach (t :: later)).1 = ⟨[t]⟩ ∧
        ∀ x ∈ (r.registerEach (t :: later)).2, ∃ f, x = .error f) := by
  refine ⟨fun hno => ?_, fun hfirst => ?_⟩
  · have hkept : r.register t = (r, .error f) := by
      rcases r.register_cases t with ⟨f', hkept⟩ | ⟨t', hprepare, -, hresult⟩
      · rw [hkept] at h ⊢
        rw [show f' = f from Except.error.inj h]
      · rcases hresult with hok | ⟨-, hempty, hplural⟩
        · rw [hok] at h
          cases h
        · refine (hno ⟨hempty, ?_⟩).elim
          rcases prepare_eq_ok hprepare with ⟨rfl, hsuper⟩ | ⟨super, hsuper, -⟩
          · exact ⟨hsuper, hplural⟩
          · have hmem := List.mem_of_find?_eq_some hsuper
            rw [hempty] at hmem
            cases hmem
    exact ⟨by rw [hkept], fun later => by rw [registerEach, hkept]⟩
  · rw [register_of_isFirstUnnamed hfirst]
    refine ⟨rfl, fun later => ?_⟩
    obtain ⟨hlast, hall⟩ := registerEach_beside hfirst.2.2 later
    rw [registerEach, register_of_isFirstUnnamed hfirst]
    exact ⟨hlast, List.forall_mem_cons.2 ⟨⟨_, rfl⟩, hall⟩⟩

theorem register_of_error_author :
    ((Registry.mk [{ name := "Author" }]).register { name := "Author" }).2 =
        .error (.schema (.duplicateName "Author")) ∧
      ((Registry.mk [{ name := "Author" }]).registerEach
          [{ name := "Author" }, { name := "Book" }]).1 =
        ((Registry.mk [{ name := "Author" }]).registerEach [{ name := "Book" }]).1 := by
  have herror : ((Registry.mk [{ name := "Author" }]).register { name := "Author" }).2 =
      .error (.schema (.duplicateName "Author")) := rfl
  refine ⟨herror, ?_⟩
  rw [((register_of_error herror).1 fun h => by cases h.1).2 [{ name := "Book" }]]

theorem unnamed_node : ({ name := "Node_" } : ResourceType).pluralName? = none := by
  decide

/-- A registration that fails may leave its type behind. -/
theorem register_not_atomic : ¬∀ (r : Registry) (t : ResourceType) (f : Fault),
    (r.register t).2 = .error f → (r.register t).1 = r := by
  intro h
  have hfirst : Registry.empty.IsFirstUnnamed { name := "Node_" } := ⟨rfl, rfl, unnamed_node⟩
  have hkept := h .empty { name := "Node_" } .noPlural (by rw [register_of_isFirstUnnamed hfirst])
  rw [register_of_isFirstUnnamed hfirst] at hkept
  cases hkept

end Hypermedia.Registry
