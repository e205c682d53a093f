import Hypermedia.Calendar.Iso
import Hypermedia.Proofs.Number.Spelled

/-!
# Dates are read as they are written

A number with leading zeros is read back as the number (`Iso.digits?_padded`), and so the text of
a date as the date (`Iso.date_text`).
-/

namespace Hypermedia

theorem toList_padded (width n : Nat) : (padded width n).toList =
    List.replicate (width - (Nat.toDigits 10 n).length) '0' ++ Nat.toDigits 10 n := by
  have hdigits : (toString n).toList = Nat.toDigits 10 n := by
    rw [Nat.toString_eq_ofList_toDigits, String.toList_ofList]
  rw [padded, String.toList_append, hdigits, zeros, String.toList_ofList, ← String.length_toList,
    hdigits]

theorem isDigit_of_mem_padded {width n : Nat} {c : Char} (h : c ∈ (padded width n).toList) :
    c.isDigit = true := by
  rw [toList_padded, List.mem_append] at h
  rcases h with h | h
  · rw [List.eq_of_mem_replicate h]
    decide
  · exact Nat.isDigit_of_mem_toDigits (by decide) (by decide) h

theorem length_padded {width n : Nat} (h : (Nat.toDigits 10 n).length ≤ width) :
    (padded width n).toList.length = width := by
  rw [toList_padded, List.length_append, List.length_replicate]
  omega

theorem daysInMonth_le (year month : Nat) : daysInMonth year month ≤ 31 := by
  unfold daysInMonth
  split
  · split <;> decide
  all_goals decide

namespace Date

/-- The fields of a date have at most four, two and two digits. -/
theorem length_toDigits_le (d : Date) : (Nat.toDigits 10 d.year).length ≤ 4 ∧
    (Nat.toDigits 10 d.month).length ≤ 2 ∧ (Nat.toDigits 10 d.day).length ≤ 2 := by
  have hfields := d.inCalendar
  simp only [isDay, Bool.and_eq_true, decide_eq_true_eq] at hfields
  have hlast := daysInMonth_le d.year d.month
  refine ⟨?_, ?_, ?_⟩ <;> rw [Nat.length_toDigits_le_iff (by decide) (by decide)] <;> omega

theorem ofFields_eq (d : Date) : ofFields d.year d.month d.day = .ok d := by
  have hfields := d.inCalendar
  simp only [isDay, Bool.and_eq_true, decide_eq_true_eq] at hfields
  rw [ofFields, if_neg (by simp; omega), if_neg (by simp; omega), dif_pos d.inCalendar]

theorem toList_text (d : Date) : d.text.toList = (padded 4 d.year).toList ++
    '-' :: ((padded 2 d.month).toList ++ '-' :: ((padded 2 d.day).toList ++ [])) := by
  change (padded 4 d.year ++ "-" ++ padded 2 d.month ++ "-" ++ padded 2 d.day).toList = _
  simp

theorem length_text (d : Date) : d.text.toList.length = 10 := by
  obtain ⟨hyear, hmonth, hday⟩ := d.length_toDigits_le
  rw [toList_text]
  simp only [List.length_append, List.length_cons, List.length_nil, length_padded hyear,
    length_padded hmonth, length_padded hday]

/-- A date is written with digits and hyphens. -/
theorem char_cases {d : Date} {c : Char} (h : c ∈ d.text.toList) : c.isDigit = true ∨ c = '-' := by
  simp only [toList_text, List.append_nil, List.mem_append, List.mem_cons] at h
  rcases h with h | h | h | h | h
  · exact .inl (isDigit_of_mem_padded h)
  · exact .inr h
  · exact .inl (isDigit_of_mem_padded h)
  · exact .inr h
  · exact .inl (isDigit_of_mem_padded h)

theorem toNat_lt_of_mem_text {d : Date} {c : Char} (h : c ∈ d.text.toList) : c.toNat < 128 := by
  rcases char_cases h with hdigit | rfl
  · have hrange := Reading.isDigit_range hdigit
    omega
  · decide

end Date

namespace Iso

/-- As many digits as are there are read as the number that they write. -/
theorem digits?_append {s : List Char} (h : ∀ c ∈ s, c.isDigit = true) (v : Nat) (r : List Char) :
    digits? s.length v (s ++ r) = some (Nat.ofDigitChars 10 s v, r) := by
  induction s generalizing v with
  | nil => rfl
  | cons c s ih =>
    rw [List.length_cons, List.cons_append, digits?, if_pos (h c List.mem_cons_self),
      ih fun d hd => h d (List.mem_cons_of_mem _ hd), Nat.ofDigitChars_cons]
    rfl

/-- Leading zeros do not change the number. -/
theorem digits?_padded {width n : Nat} (h : (Nat.toDigits 10 n).length ≤ width)
    (r : List Char) : digits? width 0 ((padded width n).toList ++ r) = some (n, r) := by
  have hread :=
    digits?_append (s := (padded width n).toList) (fun c => isDigit_of_mem_padded) 0 r
  rw [length_padded h] at hread
  rw [hread, toList_padded, Nat.ofDigitChars_append, Nat.ofDigitChars_replicate_zero, Nat.mul_zero,
    Nat.ofDigitChars_ten_toDigits]

/-- A text in ASCII has its characters as units. -/
theorem units_eq_toList {s : String} (h : ∀ c ∈ s.toList, c.toNat < 128) : units s = s.toList := by
  have hchars : ∀ r : List Char, (∀ c ∈ r, c.toNat < 128) →
      (r.flatMap fun c => if c.toNat < 128 then [c] else List.replicate c.utf8Size c) = r := by
    intro r
    induction r with
    | nil => exact fun _ => rfl
    | cons c r ih =>
      intro h
      rw [List.flatMap_cons, if_pos (h c List.mem_cons_self),
        ih fun d hd => h d (List.mem_cons_of_mem _ hd)]
      rfl
  exact hchars _ h

/-- Digits do not begin with the mark of weeks. -/
theorem head?_padded_ne (width n : Nat) (r : List Char) :
    ((padded width n).toList ++ r).head? ≠ some 'W' := by
  cases hs : (padded width n).toList with
  | nil =>
    rw [toList_padded, List.append_eq_nil_iff] at hs
    exact absurd hs.2 Nat.toDigits_ne_nil
  | cons c s =>
    intro h
    have hdigit := isDigit_of_mem_padded (hs ▸ List.mem_cons_self)
    obtain rfl : c = 'W' := Option.some.inj h
    exact absurd hdigit (by decide)

/-- A year, a month and a day with hyphens are read as they are written. -/
theorem dateFields?_padded {year month day : Nat} (hyear : (Nat.toDigits 10 year).length ≤ 4)
    (hmonth : (Nat.toDigits 10 month).length ≤ 2) (hday : (Nat.toDigits 10 day).length ≤ 2)
    (r : List Char) (len : Nat) :
    dateFields? ((padded 4 year).toList ++
      '-' :: ((padded 2 month).toList ++ '-' :: ((padded 2 day).toList ++ r))) len =
        some (year, month, day) := by
  have hweek : (((padded 2 month).toList ++ '-' :: ((padded 2 day).toList ++ r)).head? ==
      some 'W') = false := by
    simpa only [beq_eq_false_iff_ne] using head?_padded_ne 2 month _
  simp only [dateFields?, digits?_padded hyear, Option.bind_eq_bind, Option.bind_some,
    List.head?_cons, beq_self_eq_true, if_true, List.tail_cons, hweek, Bool.false_eq_true,
    if_false, digits?_padded hmonth, digits?_padded hday]

/-- The text of a date is read as the date. -/
theorem date_text (d : Date) : date d.text = .ok d := by
  obtain ⟨hyear, hmonth, hday⟩ := d.length_toDigits_le
  rw [date, units_eq_toList fun _ => Date.toNat_lt_of_mem_text]
  simp only [d.length_text]
  rw [d.toList_text, dateFields?_padded hyear hmonth hday]
  simp only [d.ofFields_eq, checked]
  rfl

end Iso

end Hypermedia
