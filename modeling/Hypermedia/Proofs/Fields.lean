import Hypermedia.Fields
import Mathlib.Data.List.Nodup

/-!
# Names that are bound

What is bound after binding a name is the new thing for that name and what was bound before
for every other. Where names differ, a thing is found by its name.
-/

namespace Hypermedia

/-- Where keys differ, a member is found by its key. -/
theorem find?_key_eq_some {α κ : Type} [BEq κ] [LawfulBEq κ] {key : α → κ} {xs : List α}
    (hn : (xs.map key).Nodup) {x : α} {k : κ} :
    (xs.find? fun y => key y == k) = some x ↔ x ∈ xs ∧ key x = k := by
  constructor
  · exact fun h => ⟨List.mem_of_find?_eq_some h, by simpa using List.find?_some h⟩
  · rintro ⟨hx, rfl⟩
    cases hfind : xs.find? fun y => key y == key x with
    | none => simpa using List.find?_eq_none.1 hfind x hx
    | some y =>
      have hkey : key y = key x := by simpa using List.find?_some hfind
      rw [List.inj_on_of_nodup_map hn (List.mem_of_find?_eq_some hfind) hx hkey]

namespace Fields

variable {α : Type}

theorem mem_put {name : String} {x : α} {f : String × α} : ∀ {fields : List (String × α)},
    f ∈ put name x fields → f ∈ fields ∨ f = (name, x)
  | [], h => by simpa [put] using h
  | (k, y) :: r, h => by
    unfold put at h
    split at h
    · next hk =>
      rcases List.mem_cons.1 h with h | h
      · exact Or.inr (by rw [h, beq_iff_eq.1 hk])
      · exact Or.inl (List.mem_cons_of_mem _ h)
    · rcases List.mem_cons.1 h with h | h
      · exact Or.inl (List.mem_cons.2 (Or.inl h))
      · exact (mem_put h).imp (List.mem_cons_of_mem _) id

theorem get?_put (name : String) (x : α) (k : String) : ∀ fields : List (String × α),
    get? k (put name x fields) = if k = name then some x else get? k fields
  | [] => by
    by_cases hk : k = name
    · simp [put, get?, hk]
    · simp [put, get?, hk, Ne.symm hk]
  | (j, y) :: r => by
    have hstep : ∀ (z : α) fs, get? k ((j, z) :: fs) = if k = j then some z else get? k fs := by
      intro z fs
      by_cases hk : k = j
      · simp [get?, hk]
      · simp [get?, hk, Ne.symm hk]
    unfold put
    by_cases hj : j = name
    · rw [if_pos (by simpa using hj), hstep, hstep, hj]
      split <;> rfl
    · rw [if_neg (by simpa using hj), hstep, hstep, get?_put name x k r]
      by_cases hk : k = j
      · simp [hk, hj]
      · simp [hk]

/-- Names stay different when one of them is bound. -/
theorem nodup_put {name : String} {x : α} : ∀ {fields : List (String × α)},
    (fields.map Prod.fst).Nodup → ((put name x fields).map Prod.fst).Nodup
  | [], _ => List.nodup_singleton name
  | (j, y) :: r, h => by
    rw [List.map_cons, List.nodup_cons] at h
    unfold put
    split
    · exact List.nodup_cons.2 h
    · next hj =>
      refine List.nodup_cons.2 ⟨fun hmem => ?_, nodup_put h.2⟩
      obtain ⟨f, hf, hname⟩ := List.mem_map.1 hmem
      rcases mem_put hf with hf | rfl
      · exact h.1 (List.mem_map.2 ⟨f, hf, hname⟩)
      · exact hj (by simpa using hname.symm)

theorem mem_putAll {f : String × α} : ∀ (new fields : List (String × α)),
    f ∈ putAll fields new → f ∈ fields ∨ f ∈ new
  | [], _, h => Or.inl h
  | x :: new, fields, h => by
    rcases mem_putAll new _ h with h | h
    · rcases mem_put h with h | h
      · exact Or.inl h
      · exact Or.inr (List.mem_cons.2 (Or.inl h))
    · exact Or.inr (List.mem_cons_of_mem _ h)

/-- The first name stays the first. -/
theorem exists_putAll_cons (k : String) (x : α) (r new : List (String × α)) :
    ∃ y r', putAll ((k, x) :: r) new = (k, y) :: r' := by
  induction new generalizing x r with
  | nil => exact ⟨x, r, rfl⟩
  | cons f new ih =>
    rw [putAll, List.foldl_cons, put]
    split
    · exact ih f.2 r
    · exact ih x _

/-- What no new name is bound to stays. -/
theorem get?_putAll_of_notMem {k : String} {new : List (String × α)}
    (h : k ∉ new.map Prod.fst) (fields : List (String × α)) :
    get? k (putAll fields new) = get? k fields := by
  induction new generalizing fields with
  | nil => rfl
  | cons f new ih =>
    rw [List.map_cons, List.mem_cons, not_or] at h
    exact (ih h.2 _).trans (by rw [get?_put, if_neg h.1])

/-- Where new names differ, each of them is bound. -/
theorem get?_putAll_of_mem {k : String} {x : α} {new : List (String × α)}
    (hn : (new.map Prod.fst).Nodup) (h : (k, x) ∈ new) (fields : List (String × α)) :
    get? k (putAll fields new) = some x := by
  induction new generalizing fields with
  | nil => cases h
  | cons f new ih =>
    rw [List.map_cons, List.nodup_cons] at hn
    rcases List.mem_cons.1 h with rfl | h
    · exact (get?_putAll_of_notMem hn.1 _).trans (by rw [get?_put, if_pos rfl])
    · exact ih hn.2 h _

theorem mem_names_of_get? {k : String} {x : α} {fields : List (String × α)}
    (h : get? k fields = some x) : k ∈ fields.map Prod.fst := by
  obtain ⟨f, hf, -⟩ := Option.map_eq_some_iff.1 h
  have hname : f.1 = k := by simpa using List.find?_some hf
  exact hname ▸ List.mem_map_of_mem (List.mem_of_find?_eq_some hf)

theorem get?_isSome_iff {k : String} {fields : List (String × α)} :
    (get? k fields).isSome = true ↔ k ∈ fields.map Prod.fst := by
  rw [get?, Option.isSome_map, List.find?_isSome, List.mem_map]
  simp only [beq_iff_eq]

theorem get?_append (k : String) (xs ys : List (String × α)) :
    get? k (xs ++ ys) = (get? k xs).or (get? k ys) := by
  rw [get?, get?, get?, List.find?_append, Option.map_or]

/-- Of several new things of a name the last is bound. -/
theorem get?_putAll (k : String) (new fields : List (String × α)) :
    get? k (putAll fields new) = (get? k new.reverse).or (get? k fields) := by
  induction new generalizing fields with
  | nil => rfl
  | cons f new ih =>
    rw [putAll, List.foldl_cons, ← putAll, ih, List.reverse_cons, get?_append, get?_put,
      Option.or_assoc]
    congr 1
    by_cases hk : k = f.1
    · simp [get?, hk]
    · simp [get?, hk, Ne.symm hk]

/-- What is bound to a name that is not there stands at the end. -/
theorem put_of_notMem {name : String} {x : α} {fields : List (String × α)}
    (h : name ∉ fields.map Prod.fst) : put name x fields = fields ++ [(name, x)] := by
  induction fields with
  | nil => rfl
  | cons f fields ih =>
    obtain ⟨hne, hrest⟩ := not_or.1 (List.mem_cons.not.1 h)
    rw [put, if_neg (by simpa using Ne.symm hne), ih hrest]
    rfl

/-- Binding a name adds its name at the end if it is not there. -/
theorem map_fst_put (name : String) (x : α) (fields : List (String × α)) :
    (put name x fields).map Prod.fst =
      if name ∈ fields.map Prod.fst then fields.map Prod.fst
      else fields.map Prod.fst ++ [name] := by
  induction fields with
  | nil => rfl
  | cons f fields ih =>
    unfold put
    by_cases hf : f.1 = name
    · rw [if_pos (by simpa using hf), if_pos (by simp [hf])]
      rfl
    · rw [if_neg (by simpa using hf), List.map_cons, ih, List.map_cons]
      by_cases hmem : name ∈ fields.map Prod.fst
      · rw [if_pos hmem, if_pos (List.mem_cons_of_mem _ hmem)]
      · rw [if_neg hmem, if_neg (by simpa [Ne.symm hf] using hmem)]
        rfl

/-- Which names are bound, and in which order, depends on the names alone. -/
theorem map_fst_putAll_congr {new new' : List (String × α)}
    (hnew : new.map Prod.fst = new'.map Prod.fst) {fields fields' : List (String × α)}
    (h : fields.map Prod.fst = fields'.map Prod.fst) :
    (putAll fields new).map Prod.fst = (putAll fields' new').map Prod.fst := by
  induction new generalizing new' fields fields' with
  | nil =>
    obtain rfl := List.map_eq_nil_iff.1 hnew.symm
    exact h
  | cons f new ih =>
    obtain ⟨f', new', rfl, hname, hnew'⟩ := List.map_eq_cons_iff.1 hnew.symm
    refine ih hnew'.symm ?_
    rw [map_fst_put, map_fst_put, h, hname]

theorem get?_map {β : Type} (g : α → β) (k : String) (fields : List (String × α)) :
    get? k (fields.map fun f => (f.1, g f.2)) = (get? k fields).map g := by
  rw [get?, get?, List.find?_map, Option.map_map, Option.map_map]
  rfl

/-- What is bound after a name is bound anew, at the end. -/
theorem get?_rebind (fields : List (String × α)) (name : String) (x : α) (k : String) :
    get? k ((fields.filter fun f => f.1 != name) ++ [(name, x)]) =
      if k = name then some x else get? k fields := by
  induction fields with
  | nil =>
    by_cases hk : k = name
    · simp [get?, hk]
    · simp [get?, hk, Ne.symm hk]
  | cons f fields ih =>
    by_cases hf : f.1 = name
    · rw [List.filter_cons_of_neg (by simpa using hf), ih]
      by_cases hk : k = name
      · simp [hk]
      · have hne : f.1 ≠ k := fun h => hk (h.symm.trans hf)
        simp [hk, get?, hne]
    · rw [List.filter_cons_of_pos (by simpa using hf), List.cons_append]
      by_cases hk : f.1 = k
      · have hne : k ≠ name := fun h => hf (hk.trans h)
        simp [get?, hk, hne]
      · have hstep : ∀ fs, get? k (f :: fs) = get? k fs := fun fs => by simp [get?, hk]
        rw [hstep, hstep, ih]

end Fields

end Hypermedia
