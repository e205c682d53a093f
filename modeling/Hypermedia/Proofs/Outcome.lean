import Hypermedia.Fault
import Mathlib.Data.List.Forall2

/-!
# Outcomes of computations that may fail

A chain of computations succeeds exactly if each of them does, and so does one that goes
through a list. Filtering a list by a computation is, in every lawful monad, asking for the
first member and filtering the rest.
-/

namespace Hypermedia

variable {ε α β : Type}

theorem bind_eq_ok {x : Except ε α} {f : α → Except ε β} {b : β} :
    x >>= f = .ok b ↔ ∃ a, x = .ok a ∧ f a = .ok b := by
  cases x with
  | error e => simp [bind, Except.bind]
  | ok a => simp [bind, Except.bind]

theorem map_eq_ok {x : Except ε α} {f : α → β} {b : β} :
    x.map f = .ok b ↔ ∃ a, x = .ok a ∧ f a = b := by
  cases x <;> simp [Except.map]

theorem toOption_eq_some {x : Except ε α} {a : α} : x.toOption = some a ↔ x = .ok a := by
  cases x <;> simp [Except.toOption]

theorem pure_eq_ok {a b : α} : (pure a : Except ε α) = .ok b ↔ a = b := by
  simp [pure, Except.pure]

@[simp] theorem ofExcept_eq (x : Except Fault α) :
    (MonadExcept.ofExcept x : Except Fault α) = x := by
  cases x <;> rfl

theorem mapM_eq_ok {f : α → Except ε β} : ∀ {xs : List α} {ys : List β},
    xs.mapM f = .ok ys ↔ List.Forall₂ (fun x y => f x = .ok y) xs ys
  | [], ys => by
    rw [List.mapM_nil, pure_eq_ok, List.forall₂_nil_left_iff]
    exact eq_comm
  | x :: xs, ys => by
    simp only [List.mapM_cons, bind_eq_ok, pure_eq_ok, mapM_eq_ok, List.forall₂_cons_left_iff]
    constructor
    · rintro ⟨y, hy, zs, hzs, rfl⟩
      exact ⟨y, zs, hy, hzs, rfl⟩
    · rintro ⟨y, zs, hy, hzs, rfl⟩
      exact ⟨y, hy, zs, hzs, rfl⟩

section

variable {R : α → β → Prop} {xs : List α} {ys : List β}

theorem exists_of_forall₂_right (h : List.Forall₂ R xs ys) {y : β} (hy : y ∈ ys) :
    ∃ x ∈ xs, R x y := by
  induction h with
  | nil => cases hy
  | cons hx hrest ih =>
    rcases List.mem_cons.1 hy with rfl | hy
    · exact ⟨_, List.mem_cons_self, hx⟩
    · obtain ⟨x, hmem, hx⟩ := ih hy
      exact ⟨x, List.mem_cons_of_mem _ hmem, hx⟩

theorem exists_of_forall₂_left (h : List.Forall₂ R xs ys) {x : α} (hx : x ∈ xs) :
    ∃ y ∈ ys, R x y :=
  exists_of_forall₂_right h.flip hx

/-- What follows for the members of the second list. -/
theorem forall₂_imp_mem {S : α → β → Prop} (h : List.Forall₂ R xs ys)
    (hS : ∀ x, ∀ y ∈ ys, R x y → S x y) : List.Forall₂ S xs ys := by
  induction h with
  | nil => exact .nil
  | cons hx hrest ih =>
    exact .cons (hS _ _ List.mem_cons_self hx)
      (ih fun x y hy => hS x y (List.mem_cons_of_mem _ hy))

end

/-- Every result of a computation through a list is that of one of its members. -/
theorem exists_of_mem_mapM {f : α → Except ε β} {xs : List α} {ys : List β}
    (h : xs.mapM f = .ok ys) {y : β} (hy : y ∈ ys) : ∃ x ∈ xs, f x = .ok y :=
  exists_of_forall₂_right (mapM_eq_ok.1 h) hy

/-- A computation through a list succeeds if it does for each member. -/
theorem exists_mapM {f : α → Except ε β} {xs : List α} (h : ∀ x ∈ xs, ∃ y, f x = .ok y) :
    ∃ ys, xs.mapM f = .ok ys := by
  induction xs with
  | nil => exact ⟨[], rfl⟩
  | cons x xs ih =>
    obtain ⟨y, hy⟩ := h x List.mem_cons_self
    obtain ⟨ys, hys⟩ := ih fun z hz => h z (List.mem_cons_of_mem _ hz)
    exact ⟨y :: ys, by rw [List.mapM_cons, hy, hys]; rfl⟩

/-! ## Filtering -/

section

variable {m : Type → Type} [Monad m] [LawfulMonad m]

theorem filterAuxM_eq (f : α → m Bool) : ∀ xs acc : List α,
    xs.filterAuxM f acc = (· ++ acc) <$> xs.filterAuxM f []
  | [], acc => by simp
  | x :: xs, acc => by
    simp only [List.filterAuxM, map_bind]
    refine bind_congr fun b => ?_
    rw [filterAuxM_eq f xs (bif b then x :: acc else acc),
      filterAuxM_eq f xs (bif b then [x] else [])]
    cases b <;> simp

theorem filterM_nil (f : α → m Bool) : [].filterM f = pure [] := by simp [List.filterM]

theorem filterM_cons (f : α → m Bool) (x : α) (xs : List α) : (x :: xs).filterM f =
    f x >>= fun b => xs.filterM f >>= fun ys => pure (if b then x :: ys else ys) := by
  simp only [List.filterM, List.filterAuxM, bind_assoc]
  refine bind_congr fun b => ?_
  rw [filterAuxM_eq f xs (bif b then [x] else [])]
  cases b <;> simp

/-- Filtering by a test that has no effects is filtering. -/
theorem filterM_pure (p : α → Bool) (xs : List α) :
    xs.filterM (fun x => (pure (p x) : m Bool)) = pure (xs.filter p) := by
  induction xs with
  | nil => rw [filterM_nil, List.filter_nil]
  | cons x xs ih =>
    rw [filterM_cons, pure_bind, ih, pure_bind]
    cases h : p x <;> simp [h]

end

section

variable {f : α → Except ε Bool} {xs ys : List α}

theorem exists_filterM (h : ∀ x ∈ xs, ∃ b, f x = .ok b) : ∃ ys, xs.filterM f = .ok ys := by
  induction xs with
  | nil => exact ⟨[], filterM_nil f⟩
  | cons x xs ih =>
    obtain ⟨b, hb⟩ := h x List.mem_cons_self
    obtain ⟨ys, hys⟩ := ih fun z hz => h z (List.mem_cons_of_mem _ hz)
    exact ⟨_, by rw [filterM_cons, hb, hys]; rfl⟩

/-- What is left of a list is what the computation accepts. -/
theorem mem_of_filterM (h : xs.filterM f = .ok ys) {x : α} :
    x ∈ ys ↔ x ∈ xs ∧ f x = .ok true := by
  induction xs generalizing ys with
  | nil =>
    rw [filterM_nil, pure_eq_ok] at h
    simp [← h]
  | cons z xs ih =>
    rw [filterM_cons] at h
    obtain ⟨b, hb, h⟩ := bind_eq_ok.1 h
    obtain ⟨zs, hzs, h⟩ := bind_eq_ok.1 h
    obtain rfl := pure_eq_ok.1 h
    have hrest := ih hzs
    cases b with
    | true =>
      rw [if_pos rfl, List.mem_cons, List.mem_cons, hrest]
      constructor
      · rintro (rfl | ⟨hx, hfx⟩)
        · exact ⟨.inl rfl, hb⟩
        · exact ⟨.inr hx, hfx⟩
      · rintro ⟨rfl | hx, hfx⟩
        · exact .inl rfl
        · exact .inr ⟨hx, hfx⟩
    | false =>
      rw [if_neg (by decide), List.mem_cons, hrest]
      constructor
      · exact fun ⟨hx, hfx⟩ => ⟨.inr hx, hfx⟩
      · rintro ⟨rfl | hx, hfx⟩
        · rw [hb] at hfx
          cases hfx
        · exact ⟨hx, hfx⟩

end

end Hypermedia
