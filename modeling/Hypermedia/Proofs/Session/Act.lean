import Hypermedia.Proofs.Outcome
import Hypermedia.Session.State

/-!
# Reasoning about actions

`Act.Ends` says how an action ends in a session: with a result, or with a fault. A chain of
actions ends as its parts do, one after the other (`ends_bind`). `Act.Keeps` says that an
action keeps a property of the session however it ends, and what its result is like if it
has one; it goes through chains, choices and lists.
-/

namespace Hypermedia.Act

variable {α β : Type}

/-- The outcome of an action in a session, and the session after it. -/
def exec (x : Act α) (s : Session) : Except Fault α × Session := x.run.run s

/-- The action ends in a session with a result like `Q`, or with a fault like `E`. -/
def Ends (x : Act α) (s : Session) (Q : α → Session → Prop) (E : Fault → Session → Prop) :
    Prop :=
  match x.exec s with
  | (.ok a, t) => Q a t
  | (.error f, t) => E f t

variable {s : Session} {Q : α → Session → Prop} {E : Fault → Session → Prop}

/-! ## Single actions -/

@[simp] theorem ends_pure {a : α} : Ends (pure a) s Q E ↔ Q a s := Iff.rfl

@[simp] theorem ends_throw {f : Fault} : Ends (throw f : Act α) s Q E ↔ E f s := Iff.rfl

@[simp] theorem ends_get {Q : Session → Session → Prop} : Ends get s Q E ↔ Q s s := Iff.rfl

@[simp] theorem ends_set {t : Session} {Q : Unit → Session → Prop} :
    Ends (set t) s Q E ↔ Q () t := Iff.rfl

@[simp] theorem ends_modify {g : Session → Session} {Q : Unit → Session → Prop} :
    Ends (modify g) s Q E ↔ Q () (g s) := Iff.rfl

@[simp] theorem ends_modifyEntry {r : Ref} {g : Entry → Entry} {Q : Unit → Session → Prop} :
    Ends (modifyEntry r g) s Q E ↔ Q () (s.modify r g) := Iff.rfl

theorem exec_bind (x : Act α) (f : α → Act β) :
    (x >>= f).exec s = match x.exec s with
      | (.ok a, t) => (f a).exec t
      | (.error f, t) => (.error f, t) := by
  unfold exec ExceptT.run StateT.run
  simp only [bind, ExceptT.bind, ExceptT.mk, StateT.bind]
  cases x s with
  | mk o t => cases o <;> rfl

@[simp] theorem ends_bind {x : Act α} {f : α → Act β} {Q : β → Session → Prop} :
    Ends (x >>= f) s Q E ↔ Ends x s (fun a t => Ends (f a) t Q E) E := by
  unfold Ends
  rw [exec_bind]
  cases x.exec s with
  | mk o t => cases o <;> rfl

@[simp] theorem ends_map {x : Act α} {f : α → β} {Q : β → Session → Prop} :
    Ends (f <$> x) s Q E ↔ Ends x s (fun a t => Q (f a) t) E := by
  rw [map_eq_pure_bind, ends_bind]
  exact Iff.rfl

theorem exec_tryCatch (x : Act α) (h : Fault → Act α) :
    (tryCatch x h).exec s = match x.exec s with
      | (.ok a, t) => (.ok a, t)
      | (.error f, t) => (h f).exec t := by
  unfold exec ExceptT.run StateT.run
  simp only [tryCatch, tryCatchThe, MonadExceptOf.tryCatch, ExceptT.tryCatch, ExceptT.mk, bind,
    StateT.bind]
  cases x s with
  | mk o t => cases o <;> rfl

@[simp] theorem ends_tryCatch {x : Act α} {h : Fault → Act α} :
    Ends (tryCatch x h) s Q E ↔ Ends x s Q fun f t => Ends (h f) t Q E := by
  unfold Ends
  rw [exec_tryCatch]
  cases x.exec s with
  | mk o t => cases o <;> rfl

@[simp] theorem ends_ofExcept_ok {a : α} : Ends (ofExcept (.ok a)) s Q E ↔ Q a s := Iff.rfl

@[simp] theorem ends_ofExcept_error {f : Fault} :
    Ends (ofExcept (.error f) : Act α) s Q E ↔ E f s := Iff.rfl

theorem ofExcept_ok (a : α) : (ofExcept (.ok a) : Act α) = pure a := rfl

theorem monadOfExcept_eq (x : Except Fault α) : (MonadExcept.ofExcept x : Act α) = ofExcept x := by
  cases x <;> rfl

theorem ends_exec (x : Act α) (s : Session) :
    Ends x s (fun a t => x.exec s = (.ok a, t)) fun f t => x.exec s = (.error f, t) := by
  unfold Ends
  split <;> assumption

/-- An action that cannot fail has a result. -/
theorem Ends.exists_ok {x : Act α} (h : Ends x s Q E) (hE : ∀ f t, ¬E f t) :
    ∃ a t, x.exec s = (.ok a, t) ∧ Q a t := by
  unfold Ends at h
  split at h
  · next a t heq => exact ⟨a, t, heq, h⟩
  · exact absurd h (hE _ _)

/-- An outcome may be weakened. -/
theorem Ends.imp {x : Act α} {Q' : α → Session → Prop} {E' : Fault → Session → Prop}
    (h : Ends x s Q E) (hq : ∀ a t, Q a t → Q' a t) (he : ∀ f t, E f t → E' f t) :
    Ends x s Q' E' := by
  unfold Ends at h ⊢
  split <;> rename_i heq <;> simp only [heq] at h
  · exact hq _ _ h
  · exact he _ _ h

theorem Ends.and {x : Act α} {Q' : α → Session → Prop} {E' : Fault → Session → Prop}
    (h : Ends x s Q E) (h' : Ends x s Q' E') :
    Ends x s (fun a t => Q a t ∧ Q' a t) fun f t => E f t ∧ E' f t := by
  unfold Ends at h h' ⊢
  split <;> rename_i heq <;> simp only [heq] at h h' <;> exact ⟨h, h'⟩

/-- What holds of an outcome for each of some things holds for all of them. -/
theorem ends_forall {ι : Sort*} {x : Act α} {Q : ι → α → Session → Prop}
    (hE : Ends x s (fun _ _ => True) E) (h : ∀ i, Ends x s (Q i) E) :
    Ends x s (fun a t => ∀ i, Q i a t) E := by
  unfold Ends at hE h ⊢
  split <;> rename_i heq <;> simp only [heq] at hE h
  · exact h
  · exact hE

/-- Actions for the members of a list end well if each of them leads from one good session
to the next. -/
theorem ends_forM {I : Session → Prop} {f : α → Act Unit} {xs : List α} (hs : I s)
    (h : ∀ a ∈ xs, ∀ t, I t → Ends (f a) t (fun _ u => I u) E) :
    Ends (xs.forM f) s (fun _ t => I t) E := by
  induction xs generalizing s with
  | nil => exact hs
  | cons x xs ih =>
    change Ends (f x >>= fun _ => xs.forM f) s _ _
    rw [ends_bind]
    exact (h x List.mem_cons_self s hs).imp
      (fun _ t ht => ih ht fun a ha => h a (List.mem_cons_of_mem _ ha)) fun _ _ h => h

/-- A fold ends well if each of its steps leads from one good result and session to the next. -/
theorem ends_foldlM {I : β → Session → Prop} {f : β → α → Act β} {xs : List α} {b : β}
    (hb : I b s) (h : ∀ a ∈ xs, ∀ b t, I b t → Ends (f b a) t I E) :
    Ends (xs.foldlM f b) s I E := by
  induction xs generalizing b s with
  | nil => exact hb
  | cons x xs ih =>
    rw [List.foldlM_cons, ends_bind]
    exact (h x List.mem_cons_self b s hb).imp
      (fun _ _ ht => ih ht fun a ha => h a (List.mem_cons_of_mem _ ha)) fun _ _ h => h

/-! ## Actions that keep a property -/

/-- However the action ends, a property of sessions stays, and a result is like `Q`. -/
def Keeps (I : Session → Prop) (x : Act α) (Q : α → Prop) : Prop :=
  ∀ s, I s → Ends x s (fun a t => I t ∧ Q a) fun _ t => I t

variable {I : Session → Prop} {x : Act α} {P : α → Prop} {Q : β → Prop}

theorem Keeps.imp {Q : α → Prop} (h : Keeps I x P) (hp : ∀ a, P a → Q a) : Keeps I x Q :=
  fun s hs => (h s hs).imp (fun _ _ h => ⟨h.1, hp _ h.2⟩) fun _ _ h => h

theorem Keeps.true (h : Keeps I x P) : Keeps I x fun _ => True := h.imp fun _ _ => trivial

theorem Keeps.and {J : Session → Prop} {Q : α → Prop} (h : Keeps I x P) (h' : Keeps J x Q) :
    Keeps (fun s => I s ∧ J s) x fun a => P a ∧ Q a :=
  fun s hs => ((h s hs.1).and (h' s hs.2)).imp
    (fun _ _ ⟨h, h'⟩ => ⟨⟨h.1, h'.1⟩, h.2, h'.2⟩) fun _ _ h => h

theorem keeps_pure {a : α} (h : P a) : Keeps I (pure a) P := fun _ hs => ⟨hs, h⟩

theorem keeps_throw (f : Fault) : Keeps I (throw f : Act α) P := fun _ hs => hs

theorem keeps_ofExcept {x : Except Fault α} (h : ∀ a, x = .ok a → P a) :
    Keeps I (ofExcept x) P := by
  intro s hs
  cases x with
  | ok a => exact ⟨hs, h a rfl⟩
  | error f => exact hs

theorem keeps_get : Keeps I get I := fun _ hs => ⟨hs, hs⟩

theorem keeps_modify {g : Session → Session} (h : ∀ s, I s → I (g s)) :
    Keeps I (modify g) fun _ => True := fun _ hs => ⟨h _ hs, trivial⟩

theorem Keeps.bind {f : α → Act β} (hx : Keeps I x P) (hf : ∀ a, P a → Keeps I (f a) Q) :
    Keeps I (x >>= f) Q := by
  intro s hs
  rw [ends_bind]
  exact (hx s hs).imp (fun a t h => hf a h.2 t h.1) fun _ _ h => h

theorem Keeps.ends_bind {f : α → Act β} {Q : β → Session → Prop} {E : Fault → Session → Prop}
    (hx : Keeps I x P) (hs : I s) (hf : ∀ a t, I t → P a → Ends (f a) t Q E)
    (he : ∀ f t, I t → E f t) : Ends (x >>= f) s Q E := by
  rw [Act.ends_bind]
  exact (hx s hs).imp (fun a t h => hf a t h.1 h.2) he

theorem keeps_ite {p : Prop} [Decidable p] {y : Act α} (hx : p → Keeps I x P)
    (hy : ¬p → Keeps I y P) : Keeps I (if p then x else y) P := by
  split
  · next h => exact hx h
  · next h => exact hy h

theorem keeps_forM {f : α → Act Unit} {xs : List α} (h : ∀ a ∈ xs, Keeps I (f a) fun _ => True) :
    Keeps I (xs.forM f) fun _ => True := by
  intro s hs
  exact (ends_forM hs fun a ha t ht => (h a ha t ht).imp (fun _ _ h => h.1) fun _ _ h => h).imp
    (fun _ _ h => ⟨h, trivial⟩) fun _ _ h => h

theorem keeps_option_forM {f : α → Act Unit} {x : Option α}
    (h : ∀ a, x = some a → Keeps I (f a) fun _ => True) : Keeps I (x.forM f) fun _ => True := by
  cases x with
  | none => exact keeps_pure trivial
  | some a => exact h a rfl

theorem keeps_foldlM {f : β → α → Act β} {xs : List α} {b : β} (hb : Q b)
    (h : ∀ b, Q b → ∀ a ∈ xs, Keeps I (f b a) Q) : Keeps I (xs.foldlM f b) Q := by
  induction xs generalizing b with
  | nil => exact keeps_pure hb
  | cons x xs ih =>
    rw [List.foldlM_cons]
    exact (h b hb x List.mem_cons_self).bind fun b' hb' =>
      ih hb' fun b hb a ha => h b hb a (List.mem_cons_of_mem _ ha)

theorem keeps_mapM {f : α → Act β} {xs : List α} (h : ∀ a ∈ xs, Keeps I (f a) Q) :
    Keeps I (xs.mapM f) fun bs => ∀ b ∈ bs, Q b := by
  induction xs with
  | nil =>
    rw [List.mapM_nil]
    exact keeps_pure (by simp)
  | cons x xs ih =>
    rw [List.mapM_cons]
    refine (h x List.mem_cons_self).bind fun b hb => ?_
    refine (ih fun a ha => h a (List.mem_cons_of_mem _ ha)).bind fun bs hbs => ?_
    exact keeps_pure (by simpa using ⟨hb, hbs⟩)

theorem keeps_filterM {f : α → Act Bool} {xs : List α}
    (h : ∀ a ∈ xs, Keeps I (f a) fun _ => True) :
    Keeps I (xs.filterM f) fun ys => ∀ y ∈ ys, y ∈ xs := by
  induction xs with
  | nil =>
    rw [filterM_nil]
    exact keeps_pure (by simp)
  | cons x xs ih =>
    rw [filterM_cons]
    refine (h x List.mem_cons_self).bind fun b _ => ?_
    refine (ih fun a ha => h a (List.mem_cons_of_mem _ ha)).bind fun ys hys => ?_
    refine keeps_pure fun y hy => ?_
    cases b with
    | false => exact List.mem_cons_of_mem _ (hys y hy)
    | true =>
      rcases List.mem_cons.1 hy with rfl | hy
      · exact List.mem_cons_self
      · exact List.mem_cons_of_mem _ (hys y hy)

/-! ## Actions that change nothing -/

/-- The action changes nothing, and a result is like `P`. -/
def Still (x : Act α) (P : Session → α → Prop) : Prop :=
  ∀ s, Ends x s (fun a t => t = s ∧ P s a) fun _ t => t = s

variable {P : Session → α → Prop}

theorem Still.ends_bind {f : α → Act β} {Q : β → Session → Prop} {E : Fault → Session → Prop}
    (hx : Still x P) (hf : ∀ a, P s a → Ends (f a) s Q E) (he : ∀ f, E f s) :
    Ends (x >>= f) s Q E := by
  rw [Act.ends_bind]
  exact (hx s).imp (fun a t ⟨ht, ha⟩ => ht ▸ hf a ha) fun f t ht => ht ▸ he f

theorem Still.bind {P' : Session → β → Prop} {f : α → Act β} (hx : Still x P)
    (hf : ∀ a, Still (f a) P') : Still (x >>= f) P' :=
  fun s => hx.ends_bind (fun a _ => hf a s) fun _ => rfl

theorem Still.keeps {I : Session → Prop} (hx : Still x P) : Keeps I x fun _ => True :=
  fun s hs => (hx s).imp (fun _ _ h => ⟨h.1 ▸ hs, trivial⟩) fun _ _ h => h ▸ hs

theorem still_pure {a : α} (h : ∀ s, P s a) : Still (pure a) P := fun s => ⟨rfl, h s⟩

theorem still_throw (f : Fault) : Still (throw f : Act α) P := fun _ => rfl

theorem ends_entry {s : Session} {r : Ref} {e : Entry} (he : s.known? r = some e)
    {Q : Entry → Session → Prop} {E : Fault → Session → Prop} (hQ : Q e s) :
    Ends (entry r) s Q E := by
  unfold entry
  rw [ends_bind, ends_get, he]
  exact hQ

theorem ends_database {s : Session} (h : s.failed = false) {Q : Database → Session → Prop}
    {E : Fault → Session → Prop} (hQ : Q s.db s) : Ends database s Q E := by
  unfold database
  rw [ends_bind, ends_get, h]
  exact hQ

theorem still_entry (r : Ref) : Still (entry r) fun s e => s.known? r = some e := by
  intro s
  unfold entry
  rw [Act.ends_bind, ends_get]
  split
  · next e he => exact ⟨rfl, he⟩
  · exact rfl

theorem still_database : Still database fun s db => db = s.db := by
  intro s
  unfold database
  rw [Act.ends_bind, ends_get]
  split
  · exact rfl
  · exact ⟨rfl, rfl⟩

theorem still_table (name : String) :
    Still (Act.table name) fun s t => s.db.table name = .ok t := by
  refine fun s => still_database.ends_bind (fun db hdb => ?_) fun _ => rfl
  subst hdb
  cases h : s.db.table name with
  | ok t => exact ⟨rfl, h⟩
  | error f => exact rfl

end Hypermedia.Act
