import Hypermedia.Column
import Hypermedia.Proofs.Format.Rereading
import Hypermedia.Proofs.Number.Spelled

/-!
# Identifiers are read as they are written

Hexadecimal digits are read as the number that they write (`Reading.int_hexDigits`). The text of an
identifier has nothing but such digits in groups, so an identifier is read from its text
(`Conversion.toUuid_text`).
-/

namespace Hypermedia

/-! ## Hexadecimal digits -/

/-- A list of hexadecimal digits by their values. -/
structure IsHex (ds : List Nat) (n : Nat) : Prop where
  small : ∀ d ∈ ds, d < 16
  value : ds.foldl (fun n d => 16 * n + d) 0 = n

theorem exists_toDigits_eq_map (n : Nat) :
    ∃ ds, Nat.toDigits 16 n = ds.map Nat.digitChar ∧ IsHex ds n := by
  induction n using Nat.strongRecOn with
  | _ n ih =>
    by_cases hsmall : n < 16
    · refine ⟨[n], Nat.toDigits_of_lt_base hsmall, ?_, ?_⟩
      · simpa using hsmall
      · simp
    · obtain ⟨ds, hdigits, hex⟩ := ih (n / 16) (by omega)
      refine ⟨ds ++ [n % 16], ?_, fun d hd => ?_, ?_⟩
      · rw [Nat.toDigits_of_base_le (by decide) (by omega), hdigits, List.map_append]
        rfl
      · rcases List.mem_append.1 hd with hd | hd
        · exact hex.small d hd
        · rw [List.mem_singleton.1 hd]
          exact Nat.mod_lt n (by decide)
      · rw [List.foldl_append, hex.value]
        exact Nat.div_add_mod n 16

theorem Text.exists_hexDigits_eq_map (width n : Nat) :
    ∃ ds, hexDigits width n = ds.map Nat.digitChar ∧ IsHex ds n := by
  obtain ⟨ds, hdigits, hex⟩ := exists_toDigits_eq_map n
  have hzeros : ∀ k, (List.replicate k 0 ++ ds).foldl (fun n d => 16 * n + d) 0 = n := by
    intro k
    induction k with
    | zero => exact hex.value
    | succ k ih => exact ih
  refine ⟨List.replicate (width - ds.length) 0 ++ ds, ?_, fun d hd => ?_, hzeros _⟩
  · simp [hexDigits, hdigits, Nat.digitChar]
  · rcases List.mem_append.1 hd with hd | hd
    · rw [List.eq_of_mem_replicate hd]
      decide
    · exact hex.small d hd

/-- The characters that are hexadecimal digits as they are written. -/
def IsHexChar (c : Char) : Prop := ∃ d < 16, c = Nat.digitChar d

theorem Text.isHexChar_of_mem_hexDigits {width n : Nat} {c : Char} (hc : c ∈ hexDigits width n) :
    IsHexChar c := by
  obtain ⟨ds, hdigits, hex⟩ := exists_hexDigits_eq_map width n
  rw [hdigits] at hc
  obtain ⟨d, hd, rfl⟩ := List.mem_map.1 hc
  exact ⟨d, hex.small d hd, rfl⟩

namespace IsHexChar

variable {c : Char} (h : IsHexChar c)

include h

theorem isPlainChar : Json.isPlainChar c = true := by
  obtain ⟨d, hd, rfl⟩ := h
  revert d
  decide

theorem not_isAsciiBlank : Text.isAsciiBlank c = false := by
  obtain ⟨d, hd, rfl⟩ := h
  revert d
  decide

theorem not_brace : (decide (c.toNat = 123) || decide (c.toNat = 125)) = false := by
  obtain ⟨d, hd, rfl⟩ := h
  revert d
  decide

theorem notMem : c ∉ "-+_xXu\x7b\x7d".toList := by
  obtain ⟨d, hd, rfl⟩ := h
  revert d
  decide

end IsHexChar

namespace Reading

theorem digitOf?_digitChar : ∀ d < 16, digitOf? (Nat.digitChar d) = some d := by
  decide

theorem digitsWithUnderscores?_map {ds : List Nat} (h : ∀ d ∈ ds, d < 16) {afterDigit : Bool}
    (hstart : afterDigit = true ∨ ds ≠ []) :
    digitsWithUnderscores? 16 afterDigit (ds.map Nat.digitChar) = some ds := by
  induction ds generalizing afterDigit with
  | nil =>
    simp only [ne_eq, not_true_eq_false, or_false] at hstart
    rw [List.map_nil, digitsWithUnderscores?, hstart]
    rfl
  | cons d ds ih =>
    have hd := h d List.mem_cons_self
    have hne : Nat.digitChar d ≠ '_' := fun heq =>
      IsHexChar.notMem ⟨d, hd, rfl⟩ (heq ▸ by decide)
    rw [List.map_cons, digitsWithUnderscores?, digitOf?_digitChar d hd]
    · dsimp only
      rw [if_pos hd, ih (fun d hd => h d (List.mem_cons_of_mem _ hd)) (Or.inl rfl)]
      rfl
    · exact hne

theorem sign_hexChars {s : List Char} (h : ∀ c ∈ s, IsHexChar c) : sign s = (false, s) := by
  unfold sign
  split
  · exact absurd (by decide) (h '-' List.mem_cons_self).notMem
  · exact absurd (by decide) (h '+' List.mem_cons_self).notMem
  · rfl

theorem dropBaseMark_hexChars {s : List Char} (h : ∀ c ∈ s, IsHexChar c) :
    dropBaseMark 16 s = s := by
  unfold dropBaseMark
  split
  · next x r =>
    have hx := (h x (List.mem_cons_of_mem _ List.mem_cons_self)).notMem
    rw [if_neg]
    simp only [decide_true, Bool.true_and, Bool.or_eq_true, beq_iff_eq]
    rintro (rfl | rfl) <;> exact hx (by decide)
  · rfl

/-- Hexadecimal digits are read as the number that they write. -/
theorem int_hexDigits (width n : Nat) : int 16 (Text.hexDigits width n) = .ok (n : Int) := by
  have hchars : ∀ c ∈ Text.hexDigits width n, IsHexChar c :=
    fun c hc => Text.isHexChar_of_mem_hexDigits hc
  have hne : Text.hexDigits width n ≠ [] :=
    List.append_ne_nil_of_right_ne_nil _ Nat.toDigits_ne_nil
  obtain ⟨ds, hdigits, hex⟩ := Text.exists_hexDigits_eq_map width n
  have hascii : ∀ c ∈ Text.hexDigits width n, c.toNat < 127 :=
    fun c hc => (Json.isPlainChar_iff.1 (hchars c hc).isPlainChar).2.1
  have hread : digitsWithUnderscores? 16 false (Text.hexDigits width n) = some ds := by
    rw [hdigits]
    refine digitsWithUnderscores?_map hex.small (.inr ?_)
    rintro rfl
    exact hne hdigits
  simp only [int, Text.plainDigits?_eq_self hascii,
    Text.trimBy_eq_self fun c hc => (hchars c hc).not_isAsciiBlank, sign_hexChars hchars,
    dropBaseMark_hexChars hchars, hread, hex.value]
  rfl

end Reading

/-! ## Identifiers -/

namespace Uuid

variable (u : Uuid)

theorem length_hex : u.hex.length = 32 := by
  have hlength : (Nat.toDigits 16 u.number).length ≤ 32 :=
    (Nat.length_toDigits_le_iff (by decide) (by decide)).2 u.inRange
  rw [hex, Text.hexDigits, List.length_append, List.length_replicate]
  omega

/-- The groups of digits in the text. -/
theorem toList_text : u.text.toList = u.hex.take 8 ++ '-' :: ((u.hex.drop 8).take 4 ++ '-' ::
    ((u.hex.drop 12).take 4 ++ '-' :: ((u.hex.drop 16).take 4 ++ '-' ::
      ((u.hex.drop 20).take 12)))) := by
  simp [text, toString]

theorem append_groups : u.hex.take 8 ++ ((u.hex.drop 8).take 4 ++ ((u.hex.drop 12).take 4 ++
    ((u.hex.drop 16).take 4 ++ (u.hex.drop 20).take 12))) = u.hex := by
  have hlast : (u.hex.drop 20).take 12 = u.hex.drop 20 :=
    List.take_of_length_le (by simp [length_hex])
  have hgroup : ∀ n k, (u.hex.drop n).take k ++ u.hex.drop (n + k) = u.hex.drop n := by
    intro n k
    rw [← List.drop_drop, List.take_append_drop]
  rw [hlast, hgroup 16 4, hgroup 12 4, hgroup 8 4, List.take_append_drop]

theorem isHexChar_or_of_mem_text {c : Char} (hc : c ∈ u.text.toList) : IsHexChar c ∨ c = '-' := by
  have hgroup : ∀ n k, c ∈ (u.hex.drop n).take k → IsHexChar c := fun n k hc =>
    Text.isHexChar_of_mem_hexDigits (List.mem_of_mem_drop (List.mem_of_mem_take hc))
  rw [toList_text] at hc
  simp only [List.mem_append, List.mem_cons] at hc
  rcases hc with hc | hc | hc | hc | hc | hc | hc | hc | hc
  · exact .inl (hgroup 0 8 hc)
  · exact .inr hc
  · exact .inl (hgroup 8 4 hc)
  · exact .inr hc
  · exact .inl (hgroup 12 4 hc)
  · exact .inr hc
  · exact .inl (hgroup 16 4 hc)
  · exact .inr hc
  · exact .inl (hgroup 20 12 hc)

theorem filter_text : u.text.toList.filter (· != '-') = u.hex := by
  have hkeep : ∀ n k, ((u.hex.drop n).take k).filter (· != '-') = (u.hex.drop n).take k := by
    intro n k
    refine List.filter_eq_self.2 fun c hc => ?_
    have hchar : IsHexChar c :=
      Text.isHexChar_of_mem_hexDigits (List.mem_of_mem_drop (List.mem_of_mem_take hc))
    rw [bne_iff_ne]
    rintro rfl
    exact hchar.notMem (by decide)
  have hskip : ∀ s : List Char, ('-' :: s).filter (· != '-') = s.filter (· != '-') := fun _ => rfl
  rw [toList_text]
  simp only [List.filter_append, hskip, hkeep]
  rw [show (u.hex.take 8).filter (· != '-') = u.hex.take 8 from hkeep 0 8, append_groups]

theorem isPlainChar_of_mem_text {c : Char} (hc : c ∈ u.text.toList) :
    Json.isPlainChar c = true := by
  rcases u.isHexChar_or_of_mem_text hc with hchar | rfl
  · exact hchar.isPlainChar
  · decide

end Uuid

namespace Conversion

/-- What does not have the first character of a text does not have the text. -/
theorem without_eq_self {p : Char} {ps s : List Char} (h : p ∉ s) (fuel : Nat) :
    without (p :: ps) fuel s = s := by
  induction fuel generalizing s with
  | zero => rfl
  | succ fuel ih =>
    cases s with
    | nil => rfl
    | cons c s =>
      obtain ⟨hne, hs⟩ : p ≠ c ∧ p ∉ s := by simpa using h
      rw [without, if_neg, ih hs]
      simp [hne]

/-- An identifier is read from its text. -/
theorem toUuid_text (u : Uuid) : toUuid (.text u.text) = .ok u := by
  have hnone : ∀ c, ¬IsHexChar c → c ≠ '-' → c ∉ u.text.toList := fun c hchar hne hc =>
    (u.isHexChar_or_of_mem_text hc).elim hchar hne
  have hu : 'u' ∉ u.text.toList := hnone 'u' (fun h => h.notMem (by decide)) (by decide)
  have hbrace : ∀ c ∈ u.text.toList,
      (decide (c.toNat = 123) || decide (c.toNat = 125)) = false := by
    intro c hc
    rcases u.isHexChar_or_of_mem_text hc with hchar | rfl
    · exact hchar.not_brace
    · decide
  have hdigits : uuidDigits u.text.toList = u.hex := by
    rw [uuidDigits]
    simp only [String.reduceToList, without_eq_self hu, Text.trimBy_eq_self hbrace, u.filter_text]
  have hread : intOfText 16 (String.ofList u.hex) (Text.quoted (String.ofList u.hex)) =
      .ok (u.number : Int) := by
    rw [intOfText, String.toList_ofList, Uuid.hex, Reading.int_hexDigits]
  simp only [toUuid, uuidOfText, hdigits, u.length_hex, ne_eq, not_true_eq_false, if_false, hread]
  exact dif_pos u.inRange

end Conversion

end Hypermedia
