import Mathlib.Data.List.Induction
import Mathlib.Data.List.Nodup
import Mathlib.Tactic.Tauto

/-!
# First occurrences

`List.eraseDups` keeps of each member of a list its first occurrence. It keeps nothing twice
(`nodup_eraseDups`), and a list without repetitions stays as it is (`eraseDups_of_nodup`). Of two
lists it keeps, behind what it keeps of the first, what is new in the second
(`eraseDups_append_eq`). So it does not matter whether repetitions are dropped in the parts of a
list before they are dropped in the whole (`eraseDups_append_congr`), and a part adds nothing if
all of it is there before (`eraseDups_append_of_subset`).

Adding to a list only what is new is associative (`append_new_assoc`).
-/

namespace Hypermedia

variable {α : Type} [BEq α] [LawfulBEq α] {xs ys xs' ys' : List α}

/-- One more member is left, at the end, if it was not there before. -/
theorem eraseDups_concat (xs : List α) (x : α) :
    (xs ++ [x]).eraseDups = if x ∈ xs then xs.eraseDups else xs.eraseDups ++ [x] := by
  rw [List.eraseDups_append]
  by_cases hx : x ∈ xs <;> simp [hx, List.removeAll, List.eraseDups_cons]

/-- Nothing is left twice. -/
theorem nodup_eraseDups (xs : List α) : xs.eraseDups.Nodup := by
  induction xs using List.reverseRecOn with
  | nil => exact List.nodup_nil
  | append_singleton xs x ih =>
    rw [eraseDups_concat]
    split
    · exact ih
    · next hx =>
      rw [← List.concat_eq_append]
      exact ih.concat (by simpa using hx)

theorem eraseDups_of_nodup (h : xs.Nodup) : xs.eraseDups = xs := by
  induction xs using List.reverseRecOn with
  | nil => rfl
  | append_singleton xs x ih =>
    obtain ⟨hxs, -, hx⟩ := List.nodup_append.1 h
    rw [eraseDups_concat, if_neg fun hmem => hx x hmem x List.mem_cons_self rfl, ih hxs]

/-- Of two lists everything of the first is left, and of the second what is new. -/
theorem eraseDups_append_eq (xs ys : List α) :
    (xs ++ ys).eraseDups = xs.eraseDups ++ ys.eraseDups.filter (· ∉ xs) := by
  induction ys using List.reverseRecOn with
  | nil => simp
  | append_singleton ys y ih =>
    rw [← List.append_assoc, eraseDups_concat, eraseDups_concat, ih]
    by_cases hxs : y ∈ xs
    · rw [if_pos (List.mem_append_left _ hxs)]
      split <;> simp [hxs]
    · by_cases hys : y ∈ ys
      · rw [if_pos (List.mem_append_right _ hys), if_pos hys]
      · rw [if_neg (by simp [hxs, hys]), if_neg hys]
        simp [hxs]

theorem eraseDups_append_congr (hxs : xs.eraseDups = xs'.eraseDups)
    (hys : ys.eraseDups = ys'.eraseDups) : (xs ++ ys).eraseDups = (xs' ++ ys').eraseDups := by
  have hmem : ∀ y, y ∈ xs ↔ y ∈ xs' := fun y => by
    rw [← List.mem_eraseDups, hxs, List.mem_eraseDups]
  rw [eraseDups_append_eq, eraseDups_append_eq, hxs, hys]
  simp only [hmem]

theorem eraseDups_append_of_subset (h : ys ⊆ xs) : (xs ++ ys).eraseDups = xs.eraseDups := by
  have hnone : ys.eraseDups.filter (· ∉ xs) = [] :=
    List.filter_eq_nil_iff.2 fun y hy => by simpa using h (List.mem_eraseDups.1 hy)
  rw [eraseDups_append_eq, hnone, List.append_nil]

/-- Adding what is new to a list does not depend on what is put together first. -/
theorem append_new_assoc (xs ys zs : List α) :
    xs ++ ys.filter (· ∉ xs) ++ zs.filter (· ∉ xs ++ ys.filter (· ∉ xs)) =
      xs ++ (ys ++ zs.filter (· ∉ ys)).filter (· ∉ xs) := by
  rw [List.filter_append, List.append_assoc, List.filter_filter]
  refine congrArg _ (congrArg _ (List.filter_congr fun z _ => Bool.eq_iff_iff.2 ?_))
  simp only [Bool.and_eq_true, decide_eq_true_iff, List.mem_append, List.mem_filter]
  tauto

end Hypermedia
