import Hypermedia.Column
import Hypermedia.Relational.Table

/-!
# Numbers are read as they are written

The decimal digits of a number are read back as the number, so the id in the address of a
record is the key that the record has in its table (`Conversion.toInt_toString`). No other
number is written like it. Numbers in the range of the store are not too long to be written
(`Reading.isShort_of_inStore`).
-/

namespace Hypermedia

namespace Text

theorem plainDigits?_eq_self {s : List Char} (h : ∀ c ∈ s, c.toNat < 127) :
    plainDigits? s = some s := by
  induction s with
  | nil => rfl
  | cons c s ih =>
    rw [plainDigits?, List.mapM_cons, plainDigit?, if_pos (h c List.mem_cons_self)]
    rw [plainDigits?] at ih
    rw [ih fun c hc => h c (List.mem_cons_of_mem _ hc)]
    rfl

/-- Nothing is cut off a text without such characters. -/
theorem trimBy_eq_self {p : Char → Bool} {s : List Char} (h : ∀ c ∈ s, p c = false) :
    trimBy p s = s := by
  have hdrop : ∀ r : List Char, (∀ c ∈ r, p c = false) → r.dropWhile p = r := by
    intro r hr
    cases r with
    | nil => rfl
    | cons c r => rw [List.dropWhile_cons_of_neg (by simp [hr c List.mem_cons_self])]
  rw [trimBy, hdrop s h, hdrop s.reverse (by simpa using h), List.reverse_reverse]

end Text

namespace Reading

variable {s : List Char}

theorem isDigit_range {c : Char} (h : c.isDigit = true) : 48 ≤ c.toNat ∧ c.toNat ≤ 57 := by
  simp only [Char.isDigit, Bool.and_eq_true, decide_eq_true_eq] at h
  exact ⟨h.1, h.2⟩

theorem sign_digits (h : ∀ c ∈ s, c.isDigit = true) : sign s = (false, s) := by
  unfold sign
  split
  · exact absurd (h '-' List.mem_cons_self) (by decide)
  · exact absurd (h '+' List.mem_cons_self) (by decide)
  · rfl

theorem dropBaseMark_ten (s : List Char) : dropBaseMark 10 s = s := by
  unfold dropBaseMark
  split <;> simp

theorem digitsWithUnderscores?_digits {afterDigit : Bool} (h : ∀ c ∈ s, c.isDigit = true)
    (hstart : afterDigit = true ∨ s ≠ []) :
    digitsWithUnderscores? 10 afterDigit s = some (s.map fun c => c.toNat - 48) := by
  induction s generalizing afterDigit with
  | nil =>
    simp only [ne_eq, not_true_eq_false, or_false] at hstart
    rw [digitsWithUnderscores?, hstart]
    rfl
  | cons c s ih =>
    have hdigit := h c List.mem_cons_self
    have hne : c ≠ '_' := by
      rintro rfl
      exact absurd hdigit (by decide)
    have hsmall : c.toNat - 48 < 10 := by
      have := isDigit_range hdigit
      omega
    have hrest : digitsWithUnderscores? 10 true s = _ :=
      ih (fun d hd => h d (List.mem_cons_of_mem _ hd)) (Or.inl rfl)
    rw [digitsWithUnderscores?, digitOf?, if_pos hdigit]
    · dsimp only
      rw [if_pos hsmall, hrest]
      rfl
    · exact hne

/-- A minus, or nothing. -/
def minus (negative : Bool) : List Char := if negative then ['-'] else []

theorem sign_minus_append (negative : Bool) (h : ∀ c ∈ s, c.isDigit = true) :
    sign (minus negative ++ s) = (negative, s) := by
  cases negative
  · exact sign_digits h
  · rfl

/-- Digits after a sign are read as the number that they write, unless they are too many. -/
theorem int_signed (negative : Bool) (hne : s ≠ []) (h : ∀ c ∈ s, c.isDigit = true) :
    int 10 (minus negative ++ s) = if maxDigits < s.length then .error (.tooLong s.length)
      else .ok (if negative then -(Nat.ofDigitChars 10 s 0 : Int)
        else Nat.ofDigitChars 10 s 0) := by
  have hchars : ∀ c ∈ minus negative ++ s, c = '-' ∨ c.isDigit = true := by
    intro c hc
    rcases List.mem_append.1 hc with hc | hc
    · cases negative
      · cases hc
      · exact .inl (List.mem_singleton.1 hc)
    · exact .inr (h c hc)
  have hascii : ∀ c ∈ minus negative ++ s, c.toNat < 127 := fun c hc => by
    rcases hchars c hc with rfl | hc
    · decide
    · have := isDigit_range hc
      omega
  have hblank : ∀ c ∈ minus negative ++ s, Text.isAsciiBlank c = false := fun c hc => by
    rcases hchars c hc with rfl | hc
    · decide
    · have hrange := isDigit_range hc
      have hspace : c ≠ ' ' := by
        rintro rfl
        exact absurd hc (by decide)
      simp [Text.isAsciiBlank, hspace]
      omega
  simp only [int, Text.plainDigits?_eq_self hascii, Text.trimBy_eq_self hblank,
    sign_minus_append negative h, dropBaseMark_ten,
    digitsWithUnderscores?_digits h (Or.inr hne), List.length_map, List.foldl_map]
  rw [Nat.ofDigitChars_eq_foldl]
  simp

/-- An integer in the range of the store is written, and so is the end of the range. -/
theorem isShort_of_inStore {n : Int} (hlow : -storeIntegerBound ≤ n)
    (hhigh : n ≤ storeIntegerBound) : isShort n = true := by
  refine decide_eq_true (Nat.le_trans (m := 19) ?_ (by decide))
  refine (Nat.length_toDigits_le_iff (by decide) (by decide)).2 ?_
  simp only [storeIntegerBound] at hlow hhigh
  omega

end Reading

/-- A number is written with its decimal digits. -/
theorem toList_toString_natCast (n : Nat) : (toString (n : Int)).toList = Nat.toDigits 10 n := by
  rw [show toString (n : Int) = toString n from rfl, Nat.toString_eq_ofList_toDigits,
    String.toList_ofList]

/-- A whole number is written with its sign and its decimal digits. -/
theorem toList_toString_int (n : Int) :
    (toString n).toList = Reading.minus (decide (n < 0)) ++ Nat.toDigits 10 n.natAbs := by
  cases n with
  | ofNat n => exact toList_toString_natCast n
  | negSucc n =>
    have hdigits : (toString (n + 1)).toList = Nat.toDigits 10 (n + 1) := by
      rw [Nat.toString_eq_ofList_toDigits, String.toList_ofList]
    rw [show toString (Int.negSucc n) = "-" ++ toString (n + 1) from rfl, String.toList_append,
      hdigits, decide_eq_true (Int.negSucc_lt_zero n)]
    rfl

/-- A number that is not negative is written with digits only. -/
theorem isDigit_of_mem_toString {k : Int} (hk : 0 ≤ k) {c : Char} (hc : c ∈ (toString k).toList) :
    c.isDigit = true := by
  obtain ⟨n, rfl⟩ := Int.eq_ofNat_of_zero_le hk
  rw [toList_toString_natCast] at hc
  exact Nat.isDigit_of_mem_toDigits (by decide) (by decide) hc

/-- No other number is written like one that is not negative. -/
theorem eq_of_toString_eq {n k : Int} (hk : 0 ≤ k) (h : toString n = toString k) : n = k := by
  cases n with
  | negSucc n =>
    have hsign : '-' ∈ (toString (Int.negSucc n)).toList := by
      rw [show toString (Int.negSucc n) = "-" ++ toString (n + 1) from rfl, String.toList_append]
      exact List.mem_cons_self
    exact absurd (isDigit_of_mem_toString hk (h ▸ hsign)) (by decide)
  | ofNat n =>
    obtain ⟨m, rfl⟩ := Int.eq_ofNat_of_zero_le hk
    have hdigits := congrArg String.toList h
    rw [show Int.ofNat n = (n : Int) from rfl, toList_toString_natCast,
      toList_toString_natCast] at hdigits
    have hvalue := congrArg (Nat.ofDigitChars 10 · 0) hdigits
    simp only [Nat.ofDigitChars_ten_toDigits] at hvalue
    rw [hvalue]
    rfl

theorem mem_positional (digits : List Char) (point : Int) :
    '.' ∈ (positional digits point).toList := by
  unfold positional
  split
  · simp
  · dsimp only
    split <;> simp

theorem mem_scientific (digits : List Char) (point : Int) :
    'e' ∈ (scientific digits point).toList := by
  unfold scientific
  simp

/-- The text of a double is not that of a whole number: it has a point, an exponent or a name. -/
theorem Binary64.exists_mem_text (x : Binary64) :
    ∃ c ∈ (x.text .plain).toList, c.isDigit = false := by
  cases x with
  | nan => exact ⟨'n', by decide, rfl⟩
  | infinite s => cases s <;> exact ⟨'n', by decide, rfl⟩
  | finite s m e =>
    simp only [text]
    generalize (if s = true then "-" else "") = sign
    by_cases hm : m = 0
    · exact ⟨'.', by simp [hm], rfl⟩
    · rw [if_neg hm]
      by_cases hlayout : (FloatText.plain.positionalAbove <
          (Nat.toDigits 10 (shortest m e).1).length + (shortest m e).2 &&
          (Nat.toDigits 10 (shortest m e).1).length + (shortest m e).2 ≤
            FloatText.plain.positionalUpTo) = true
      · rw [if_pos hlayout]
        exact ⟨'.', by simp [mem_positional], rfl⟩
      · rw [if_neg hlayout]
        exact ⟨'e', by simp [mem_scientific], rfl⟩

namespace Conversion

/-- A whole number is read as it is written, unless it has too many digits. -/
theorem toInt_toString_iff {n : Int} :
    toInt (.text (toString n)) = .ok n ↔
      (Nat.toDigits 10 n.natAbs).length ≤ Reading.maxDigits := by
  have hdigit : ∀ c ∈ Nat.toDigits 10 n.natAbs, c.isDigit = true :=
    fun c hc => Nat.isDigit_of_mem_toDigits (by decide) (by decide) hc
  rw [toInt, intOfText, toList_toString_int,
    Reading.int_signed (decide (n < 0)) Nat.toDigits_ne_nil hdigit, Nat.ofDigitChars_ten_toDigits]
  by_cases hlong : Reading.maxDigits < (Nat.toDigits 10 n.natAbs).length
  · simp [hlong]
  · rw [if_neg hlong]
    have hvalue : (if decide (n < 0) = true then -(n.natAbs : Int) else n.natAbs) = n := by
      split
      · next hneg =>
        rw [decide_eq_true_eq] at hneg
        omega
      · next hpos =>
        rw [decide_eq_true_eq] at hpos
        omega
    simp only [hvalue]
    simpa using hlong

/-- A number that the store can hold is read as it is written. -/
theorem toInt_toString {k : Int} (hlow : 0 ≤ k) (hhigh : k < storeIntegerBound) :
    toInt (.text (toString k)) = .ok k := by
  have hshort : Reading.isShort k = true :=
    Reading.isShort_of_inStore (by simp only [storeIntegerBound]; omega) (Int.le_of_lt hhigh)
  exact toInt_toString_iff.2 (of_decide_eq_true hshort)

end Conversion

end Hypermedia
