import Hypermedia.Fault
import Hypermedia.Proofs.Outcome

/-!
# Computations with effects

A storage may fail, and it may change what it keeps. `Effect.Gives` says what such a computation
gives in a state, and which state it leaves; a chain gives something exactly if its parts do, one
after the other (`Effect.gives_bind`). `Effect.IsTotal` says that there always is a result.
-/

namespace Hypermedia

/-- Computations that may fail, and that read and change a state. -/
abbrev Effect (σ : Type) := ExceptT Fault (StateM σ)

namespace Effect

variable {σ α β : Type}

/-- The computation gives a result in a state, and leaves another state. -/
def Gives (x : Effect σ α) (s : σ) (a : α) (t : σ) : Prop := x.run.run s = (.ok a, t)

variable {s t u : σ} {x : Effect σ α} {a : α}

theorem Gives.unique {b : α} (h : Gives x s a t) (h' : Gives x s b u) : a = b ∧ t = u := by
  have heq := h.symm.trans h'
  exact ⟨Except.ok.inj (congrArg Prod.fst heq), congrArg Prod.snd heq⟩

@[simp] theorem gives_pure {b : α} : Gives (pure a : Effect σ α) s b t ↔ a = b ∧ s = t := by
  constructor
  · intro h
    exact ⟨Except.ok.inj (congrArg Prod.fst h), congrArg Prod.snd h⟩
  · rintro ⟨rfl, rfl⟩
    rfl

theorem gives_bind {f : α → Effect σ β} {b : β} :
    Gives (x >>= f) s b u ↔ ∃ a t, Gives x s a t ∧ Gives (f a) t b u := by
  have hrun : (x >>= f).run.run s = match x.run.run s with
      | (.ok a, t) => (f a).run.run t
      | (.error e, t) => (.error e, t) := by
    unfold ExceptT.run StateT.run
    simp only [bind, ExceptT.bind, ExceptT.mk, StateT.bind]
    cases x s with
    | mk o t => cases o <;> rfl
  unfold Gives
  rw [hrun]
  cases x.run.run s with
  | mk o t =>
    cases o with
    | ok a =>
      constructor
      · exact fun h => ⟨a, t, rfl, h⟩
      · rintro ⟨a', t', heq, h⟩
        obtain ⟨ha, rfl⟩ := Prod.mk.inj heq
        rwa [Except.ok.inj ha]
    | error e =>
      constructor
      · exact fun h => nomatch congrArg Prod.fst h
      · rintro ⟨a', t', heq, -⟩
        exact nomatch congrArg Prod.fst heq

@[simp] theorem gives_ofExcept {y : Except Fault α} :
    Gives (MonadExcept.ofExcept y : Effect σ α) s a t ↔ y = .ok a ∧ s = t := by
  cases y with
  | ok b => exact gives_pure.trans (by rw [Except.ok.injEq])
  | error e =>
    constructor
    · exact fun h => nomatch congrArg Prod.fst h
    · exact fun h => nomatch h.1

/-- What the steps of a fold keep, the fold keeps. -/
theorem Gives.foldlM {f : β → α → Effect σ β} {xs : List α} {b c : β}
    (h : Gives (xs.foldlM f b) s c t) (I : β → Prop) (hb : I b)
    (hstep : ∀ x ∈ xs, ∀ b c s t, I b → Gives (f b x) s c t → I c) : I c := by
  induction xs generalizing b s with
  | nil =>
    obtain ⟨rfl, -⟩ := gives_pure.1 h
    exact hb
  | cons x xs ih =>
    rw [List.foldlM_cons] at h
    obtain ⟨b', s', hx, h⟩ := gives_bind.1 h
    exact ih h (hstep x List.mem_cons_self b b' s s' hb hx)
      fun y hy => hstep y (List.mem_cons_of_mem _ hy)

/-- Folds with steps that do the same do the same. -/
theorem foldlM_congr {f g : β → α → Effect σ β} {xs : List α}
    (h : ∀ x ∈ xs, ∀ b, f b x = g b x) (b : β) : xs.foldlM f b = xs.foldlM g b := by
  induction xs generalizing b with
  | nil => rfl
  | cons x xs ih =>
    rw [List.foldlM_cons, List.foldlM_cons, h x List.mem_cons_self]
    exact bind_congr fun c => ih (fun y hy => h y (List.mem_cons_of_mem _ hy)) c

/-! ## Computations that always give something -/

/-- The computation gives a result in every state. -/
def IsTotal (x : Effect σ α) : Prop := ∀ s, ∃ a t, Gives x s a t

theorem isTotal_pure (a : α) : IsTotal (pure a : Effect σ α) :=
  fun s => ⟨a, s, gives_pure.2 ⟨rfl, rfl⟩⟩

theorem IsTotal.bind {f : α → Effect σ β} (hx : IsTotal x) (hf : ∀ a, IsTotal (f a)) :
    IsTotal (x >>= f) := by
  intro s
  obtain ⟨a, t, ha⟩ := hx s
  obtain ⟨b, u, hb⟩ := hf a t
  exact ⟨b, u, gives_bind.2 ⟨a, t, ha, hb⟩⟩

theorem isTotal_ofExcept_bind {y : Except Fault α} {f : α → Effect σ β} (hy : y = .ok a)
    (hf : IsTotal (f a)) : IsTotal (MonadExcept.ofExcept y >>= f) := by
  intro s
  obtain ⟨b, t, hb⟩ := hf s
  exact ⟨b, t, gives_bind.2 ⟨a, s, gives_ofExcept.2 ⟨hy, rfl⟩, hb⟩⟩

theorem isTotal_mapM {f : α → Effect σ β} {xs : List α} (h : ∀ x ∈ xs, IsTotal (f x)) :
    IsTotal (xs.mapM f) := by
  induction xs with
  | nil => exact isTotal_pure []
  | cons x xs ih =>
    rw [List.mapM_cons]
    exact (h x List.mem_cons_self).bind fun _ =>
      (ih fun y hy => h y (List.mem_cons_of_mem _ hy)).bind fun _ => isTotal_pure _

theorem isTotal_filterM {f : α → Effect σ Bool} {xs : List α} (h : ∀ x ∈ xs, IsTotal (f x)) :
    IsTotal (xs.filterM f) := by
  induction xs with
  | nil =>
    rw [filterM_nil]
    exact isTotal_pure []
  | cons x xs ih =>
    rw [filterM_cons]
    exact (h x List.mem_cons_self).bind fun _ =>
      (ih fun y hy => h y (List.mem_cons_of_mem _ hy)).bind fun _ => isTotal_pure _

theorem isTotal_foldlM {f : β → α → Effect σ β} {xs : List α}
    (h : ∀ x ∈ xs, ∀ b, IsTotal (f b x)) (b : β) : IsTotal (xs.foldlM f b) := by
  induction xs generalizing b with
  | nil => exact isTotal_pure b
  | cons x xs ih =>
    rw [List.foldlM_cons]
    exact (h x List.mem_cons_self b).bind fun c =>
      ih (fun y hy => h y (List.mem_cons_of_mem _ hy)) c

end Effect

end Hypermedia
