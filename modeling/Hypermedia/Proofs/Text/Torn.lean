import Hypermedia.Text.Torn

/-!
# Texts by their code points

A text of characters is that of its code points, and none of them is half of a character
(`Text.ofPoints_points`, `TornText.of?_points`). A torn text shows the replacement character
(`TornText.replacement_mem`), so it never reads like a number.
-/

namespace Hypermedia

namespace Text

/-- No character is half of one. -/
theorem isHalf_toNat (c : Char) : isHalf c.toNat = false := by
  have hvalid := c.valid
  simp only [UInt32.isValidChar, Nat.isValidChar] at hvalid
  simp only [isHalf, Char.toNat, Bool.and_eq_false_iff, decide_eq_false_iff_not]
  omega

/-- What is in the range of characters is one or half of one. -/
theorem toNat_ofNat {n : Nat} (hn : n < 0x110000) (hhalf : isHalf n = false) :
    (Char.ofNat n).toNat = n := by
  simp only [isHalf, Bool.and_eq_false_iff, decide_eq_false_iff_not] at hhalf
  have hvalid : n.isValidChar := by
    unfold Nat.isValidChar
    omega
  rw [Char.ofNat, dif_pos hvalid]
  rfl

theorem charOf_toNat (c : Char) : charOf c.toNat = c := by
  rw [charOf, isHalf_toNat, if_neg Bool.false_ne_true, Char.ofNat_toNat]

theorem ofPoints_points (s : String) : ofPoints (points s) = s := by
  simp [ofPoints, points, Function.comp_def, charOf_toNat]

end Text

namespace TornText

theorem of?_points (s : String) : of? (Text.points s) = none := by
  refine dif_neg ?_
  rintro ⟨-, n, hn, hhalf⟩
  obtain ⟨c, -, rfl⟩ := List.mem_map.1 hn
  simp [Text.isHalf_toNat] at hhalf

/-- A torn text shows where it is torn. -/
theorem replacement_mem (t : TornText) : Text.replacement ∈ t.display.toList := by
  obtain ⟨n, hn, hhalf⟩ := t.isTorn
  rw [display, Text.ofPoints, String.toList_ofList]
  exact List.mem_map.2 ⟨n, hn, if_pos hhalf⟩

end TornText

end Hypermedia
