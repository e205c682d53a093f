import Hypermedia.Json.Reader
import Hypermedia.Proofs.Number.Shortest
import Hypermedia.Proofs.Number.Spelled

/-!
# Doubles are read as they are shown

The reader of numbers takes a numeral apart into its sign, its digits before and after the point and
its exponent (`Json.number?_numeral`). The text of a double is a numeral whose digits and exponent
are those of the shortest decimal, laid out in one of four ways, so every double is read from its
text, the infinities and the missing number from their names (`Json.read?_float`).
-/

namespace Hypermedia.Json

/-! ## Digits -/

/-- The text does not go on with a digit. -/
def StopsDigits (s : List Char) : Prop := ∀ c ∈ s.head?, c.isDigit = false

theorem takeWhile_digits {ds rest : List Char} (h : ∀ c ∈ ds, c.isDigit = true)
    (hrest : StopsDigits rest) : (ds ++ rest).takeWhile Char.isDigit = ds := by
  have hstop : rest.takeWhile Char.isDigit = [] := by
    cases rest with
    | nil => rfl
    | cons c rest => rw [List.takeWhile_cons, hrest c rfl]; rfl
  rw [List.takeWhile_append_of_pos h, hstop, List.append_nil]

theorem dropWhile_digits {ds rest : List Char} (h : ∀ c ∈ ds, c.isDigit = true)
    (hrest : StopsDigits rest) : (ds ++ rest).dropWhile Char.isDigit = rest := by
  have hsplit := List.takeWhile_append_dropWhile (p := Char.isDigit) (l := ds ++ rest)
  rw [takeWhile_digits h hrest] at hsplit
  exact List.append_cancel_left hsplit

theorem natOf_eq (ds : List Char) : natOf ds = Nat.ofDigitChars 10 ds 0 := by
  rw [natOf, Nat.ofDigitChars_eq_foldl]
  rfl

theorem natOf_toDigits (n : ℕ) : natOf (Nat.toDigits 10 n) = n := by
  rw [natOf_eq, Nat.ofDigitChars_ten_toDigits]

theorem natOf_append_zeros (ds : List Char) (k : ℕ) :
    natOf (ds ++ List.replicate k '0') = natOf ds * 10 ^ k := by
  rw [natOf_eq, natOf_eq, Nat.ofDigitChars_append, Nat.ofDigitChars_replicate_zero, Nat.mul_comm]

theorem natOf_zeros_append (k : ℕ) (ds : List Char) :
    natOf (List.replicate k '0' ++ ds) = natOf ds := by
  induction k with
  | zero => rfl
  | succ k ih => exact ih

/-- The digits of a positive number do not begin with a zero. -/
theorem exists_toDigits_eq_cons {n : ℕ} (hn : 0 < n) :
    ∃ d ds, Nat.toDigits 10 n = d :: ds ∧ d ≠ '0' := by
  induction n using Nat.strong_induction_on with
  | _ n ih =>
    by_cases hsmall : n < 10
    · refine ⟨_, _, Nat.toDigits_of_lt_base hsmall, ?_⟩
      have hdigit : ∀ n < 10, 0 < n → n.digitChar ≠ '0' := by decide
      exact hdigit n hsmall hn
    · obtain ⟨d, ds, hdigits, hne⟩ := ih (n / 10) (by omega) (by omega)
      refine ⟨d, ds ++ [(n % 10).digitChar], ?_, hne⟩
      rw [Nat.toDigits_of_base_le (by decide) (by omega), hdigits]
      rfl

/-! ## Numerals -/

/-- The digits of a numeral, and its exponent with the sign if it has one. -/
structure Numeral where
  negative : Bool
  whole : List Char
  fraction : List Char
  exponent : Option (Bool × List Char)

namespace Numeral

/-- The text of the digits after the point; nothing if there are none. -/
def fractionChars (x : Numeral) : List Char :=
  if x.fraction.isEmpty then [] else '.' :: x.fraction

/-- The text of the exponent. -/
def exponentChars (x : Numeral) : List Char :=
  match x.exponent with
  | none => []
  | some (negative, ds) => 'e' :: (if negative then '-' else '+') :: ds

/-- The text of a numeral. -/
def chars (x : Numeral) : List Char :=
  Reading.minus x.negative ++ (x.whole ++ (x.fractionChars ++ x.exponentChars))

/-- The value of the exponent. -/
def shift (x : Numeral) : ℤ :=
  match x.exponent with
  | none => 0
  | some (negative, ds) => if negative then -(natOf ds : ℤ) else natOf ds

/-- There are digits where digits have to be, no zero before others, and a point or an exponent. -/
structure IsFormed (x : Numeral) : Prop where
  whole : x.whole = ['0'] ∨ ∃ d ds, x.whole = d :: ds ∧ d ≠ '0'
  digits : ∀ c ∈ x.whole ++ x.fraction, c.isDigit = true
  exponent : ∀ y ∈ x.exponent, y.2 ≠ [] ∧ ∀ c ∈ y.2, c.isDigit = true
  isFloat : x.fraction ≠ [] ∨ x.exponent.isSome = true

end Numeral

theorem exponentPart_chars {x : Numeral} (h : x.IsFormed) :
    exponentPart x.exponentChars = (x.exponent.map fun _ => x.shift, []) := by
  unfold Numeral.exponentChars Numeral.shift
  cases hexp : x.exponent with
  | none => rfl
  | some y =>
    obtain ⟨hne, hdigits⟩ := h.exponent y hexp
    obtain ⟨negative, ds⟩ := y
    have hstops : StopsDigits [] := nofun
    have htake := takeWhile_digits hdigits hstops
    have hdrop := dropWhile_digits hdigits hstops
    rw [List.append_nil] at htake hdrop
    have hempty : ds.isEmpty = false := by simpa using hne
    cases negative <;>
      simp only [exponentPart, beq_self_eq_true, Bool.true_or, Bool.false_eq_true, if_true,
        if_false, htake, hdrop, hempty, Option.map_some]

theorem fractionPart_chars {x : Numeral} (h : x.IsFormed) :
    fractionPart (x.fractionChars ++ x.exponentChars) = (x.fraction, x.exponentChars) := by
  have hstops : StopsDigits x.exponentChars := by
    unfold Numeral.exponentChars
    split
    · exact nofun
    · intro c hc
      obtain rfl : 'e' = c := by simpa using hc
      rfl
  have hfraction : ∀ c ∈ x.fraction, c.isDigit = true :=
    fun c hc => h.digits c (List.mem_append_right _ hc)
  unfold Numeral.fractionChars
  split
  · next hempty =>
    rw [List.isEmpty_iff.1 hempty, List.nil_append]
    unfold Numeral.exponentChars
    cases x.exponent <;> rfl
  · next hne =>
    rw [List.cons_append]
    simp [fractionPart, takeWhile_digits hfraction hstops, dropWhile_digits hfraction hstops, hne]

theorem stopsDigits_tail (x : Numeral) :
    StopsDigits (x.fractionChars ++ x.exponentChars) := by
  unfold Numeral.fractionChars Numeral.exponentChars
  intro c hc
  split at hc
  · split at hc
    · cases hc
    · obtain rfl : 'e' = c := by simpa using hc
      rfl
  · obtain rfl : '.' = c := by simpa using hc
    rfl

/-- The digits before the point; a leading zero is the only one. -/
def wholePart (r : List Char) : List Char :=
  match r with
  | '0' :: _ => ['0']
  | _ => r.takeWhile Char.isDigit

theorem wholePart_append {x : Numeral} (h : x.IsFormed) {tail : List Char}
    (htail : StopsDigits tail) : wholePart (x.whole ++ tail) = x.whole := by
  rcases h.whole with hzero | ⟨d, ds, hwhole, hne⟩
  · rw [hzero]
    rfl
  · have hdigits : ∀ c ∈ x.whole, c.isDigit = true :=
      fun c hc => h.digits c (List.mem_append_left _ hc)
    have htake := takeWhile_digits hdigits htail
    rw [hwhole] at htake ⊢
    unfold wholePart
    split
    · next heq => exact absurd (List.cons.inj heq).1 hne
    · exact htake

/-- Read a number after its sign. -/
def unsigned? (negative : Bool) (r : List Char) : Option (Json × List Char) :=
  let whole := wholePart r
  if whole.isEmpty then none
  else
    let r := r.drop whole.length
    let (fraction, r) := fractionPart r
    let (exponent, r) := exponentPart r
    if fraction.isEmpty && exponent.isNone then
      if 4300 < whole.length then none
      else
        let n : Int := natOf whole
        some (.int (if negative then -n else n), r)
    else
      let e := exponent.getD 0 - fraction.length
      some (.float (.ofDecimal negative (natOf (whole ++ fraction)) e), r)

theorem number?_minus (r : List Char) : number? ('-' :: r) = unsigned? true r := rfl

theorem number?_of_ne {s : List Char} (h : ∀ c ∈ s.head?, c ≠ '-') :
    number? s = unsigned? false s := by
  unfold number?
  split
  next negative r heq =>
    split at heq
    · exact absurd rfl (h '-' rfl)
    · obtain ⟨rfl, rfl⟩ := Prod.mk.inj heq
      rfl

/-- A numeral is read as the double that its digits and its exponent give. -/
theorem number?_numeral {x : Numeral} (h : x.IsFormed) : number? x.chars =
    some (.float (.ofDecimal x.negative (natOf (x.whole ++ x.fraction))
      (x.shift - x.fraction.length)), []) := by
  obtain ⟨d, ds, hwhole⟩ : ∃ d ds, x.whole = d :: ds :=
    h.whole.elim (fun h => ⟨_, _, h⟩) fun ⟨d, ds, h, _⟩ => ⟨d, ds, h⟩
  have hdigit : d.isDigit = true := h.digits d (by rw [hwhole]; exact List.mem_cons_self)
  have hsign : number? x.chars =
      unsigned? x.negative (x.whole ++ (x.fractionChars ++ x.exponentChars)) := by
    unfold Numeral.chars
    cases x.negative
    · refine number?_of_ne fun c hc => ?_
      rw [hwhole] at hc
      obtain rfl : d = c := by simpa [Reading.minus] using hc
      rintro rfl
      exact absurd hdigit (by decide)
    · exact number?_minus _
  have hfloat : (x.fraction.isEmpty && (x.exponent.map fun _ => x.shift).isNone) = false := by
    rcases h.isFloat with hfraction | hexponent
    · simp [hfraction]
    · obtain ⟨y, hy⟩ := Option.isSome_iff_exists.1 hexponent
      simp [hy]
  have hshift : (x.exponent.map fun _ => x.shift).getD 0 = x.shift := by
    unfold Numeral.shift
    cases x.exponent <;> rfl
  have hempty : x.whole.isEmpty = false := by rw [hwhole]; rfl
  rw [hsign, unsigned?]
  simp only [wholePart_append h (stopsDigits_tail x), hempty, List.drop_left, fractionPart_chars h,
    exponentPart_chars h, hfloat, hshift, Bool.false_eq_true, if_false]

/-! ## Layouts -/

/-- Digits that write a positive number, without a zero before the others. -/
structure Writes (ds : List Char) (d : ℕ) : Prop where
  leads : ∃ c cs, ds = c :: cs ∧ c ≠ '0'
  digits : ∀ c ∈ ds, c.isDigit = true
  value : natOf ds = d

theorem writes_toDigits {d : ℕ} (hd : 0 < d) : Writes (Nat.toDigits 10 d) d :=
  ⟨exists_toDigits_eq_cons hd, fun _ hc => Nat.isDigit_of_mem_toDigits (by decide) (by decide) hc,
    natOf_toDigits d⟩

/-- The numeral is the text of a decimal after its sign. -/
structure Numeral.Shows (x : Numeral) (body : String) (d : ℕ) (u : ℤ) : Prop where
  formed : x.IsFormed
  chars : x.chars = Reading.minus x.negative ++ body.toList
  value : (natOf (x.whole ++ x.fraction) : ℚ) * 10 ^ (x.shift - x.fraction.length) = d * 10 ^ u

theorem isDigit_zeros {k : ℕ} : ∀ c ∈ List.replicate k '0', c.isDigit = true := by
  intro c hc
  rw [List.eq_of_mem_replicate hc]
  rfl

theorem toList_zeros (k : ℕ) : (zeros k).toList = List.replicate k '0' := by
  simp [zeros]

variable {ds : List Char} {d : ℕ} {u : ℤ} (s : Bool)

/-- All digits stand after the point, behind zeros. -/
theorem exists_shows_small (h : Writes ds d) (hpoint : (ds.length : ℤ) + u ≤ 0) :
    ∃ x : Numeral, x.negative = s ∧ x.Shows (positional ds (ds.length + u)) d u := by
  obtain ⟨k, hk⟩ := Int.eq_ofNat_of_zero_le (show 0 ≤ -((ds.length : ℤ) + u) by omega)
  have hne : ds ≠ [] := by
    obtain ⟨c, cs, rfl, -⟩ := h.leads
    exact List.cons_ne_nil c cs
  refine ⟨⟨s, ['0'], List.replicate k '0' ++ ds, none⟩, rfl, ⟨.inl rfl, ?_, nofun, ?_⟩, ?_, ?_⟩
  · intro c hc
    rcases List.mem_cons.1 hc with rfl | hc
    · rfl
    · exact (List.mem_append.1 (show c ∈ List.replicate k '0' ++ ds from hc)).elim
        (isDigit_zeros c) (h.digits c)
  · exact .inl (by simp [hne])
  · rw [positional, if_pos hpoint, hk]
    simp [Numeral.chars, Numeral.fractionChars, Numeral.exponentChars, toList_zeros, hne]
  · have hvalue : natOf (['0'] ++ (List.replicate k '0' ++ ds)) = d :=
      (natOf_zeros_append (k + 1) ds).trans h.value
    have hshift : (0 : ℤ) - (List.replicate k '0' ++ ds).length = u := by
      rw [List.length_append, List.length_replicate]
      push_cast
      omega
    simp only [hvalue, Numeral.shift, hshift]

/-- All digits stand before the point, with zeros behind them. -/
theorem exists_shows_large (h : Writes ds d) (hu : 0 ≤ u) :
    ∃ x : Numeral, x.negative = s ∧ x.Shows (positional ds (ds.length + u)) d u := by
  obtain ⟨k, rfl⟩ := Int.eq_ofNat_of_zero_le hu
  obtain ⟨c, cs, hds, hc⟩ := h.leads
  have hpoint : ¬(ds.length : ℤ) + k ≤ 0 := by
    rw [hds, List.length_cons]
    omega
  refine ⟨⟨s, ds ++ List.replicate k '0', ['0'], none⟩, rfl, ⟨?_, ?_, nofun, ?_⟩, ?_, ?_⟩
  · exact .inr ⟨c, cs ++ List.replicate k '0', by rw [hds]; rfl, hc⟩
  · intro c hc
    rcases List.mem_append.1 hc with hc | hc
    · exact (List.mem_append.1 hc).elim (h.digits c) (isDigit_zeros c)
    · exact isDigit_zeros (k := 1) c hc
  · exact .inl (List.cons_ne_nil _ _)
  · have hlength : ((ds.length : ℤ) + k).toNat = ds.length + k := by omega
    rw [positional, if_neg hpoint, hlength]
    simp [Numeral.chars, Numeral.fractionChars, Numeral.exponentChars, toList_zeros]
  · have hvalue : natOf (ds ++ List.replicate k '0' ++ ['0']) = d * 10 ^ (k + 1) := by
      rw [List.append_assoc, ← List.replicate_succ', natOf_append_zeros, h.value]
    simp only [hvalue, Numeral.shift, List.length_singleton]
    push_cast
    rw [zpow_natCast, pow_succ, zpow_neg_one]
    field_simp

/-- The point stands between digits. -/
theorem exists_shows_middle (h : Writes ds d) (hpoint : 0 < (ds.length : ℤ) + u) (hu : u < 0) :
    ∃ x : Numeral, x.negative = s ∧ x.Shows (positional ds (ds.length + u)) d u := by
  obtain ⟨p, hp⟩ := Int.eq_ofNat_of_zero_le hpoint.le
  obtain ⟨c, cs, hds, hc⟩ := h.leads
  have hlt : p < ds.length := by omega
  have hdrop : ds.drop p ≠ [] := by simpa using hlt
  refine ⟨⟨s, ds.take p, ds.drop p, none⟩, rfl, ⟨?_, ?_, nofun, .inl hdrop⟩, ?_, ?_⟩
  · obtain ⟨q, rfl⟩ := Nat.exists_eq_succ_of_ne_zero (show p ≠ 0 by omega)
    exact .inr ⟨c, cs.take q, by rw [hds]; rfl, hc⟩
  · rw [List.take_append_drop]
    exact h.digits
  · rw [positional, if_neg (not_le.2 hpoint), hp]
    simp [Numeral.chars, Numeral.fractionChars, Numeral.exponentChars, Nat.not_le.2 hlt]
  · have hshift : (0 : ℤ) - (ds.drop p).length = u := by
      rw [List.length_drop]
      omega
    simp only [List.take_append_drop, h.value, Numeral.shift, hshift]

theorem exists_shows_positional (h : Writes ds d) :
    ∃ x : Numeral, x.negative = s ∧ x.Shows (positional ds (ds.length + u)) d u := by
  by_cases hsmall : (ds.length : ℤ) + u ≤ 0
  · exact exists_shows_small s h hsmall
  · by_cases hlarge : 0 ≤ u
    · exact exists_shows_large s h hlarge
    · exact exists_shows_middle s h (not_le.1 hsmall) (not_le.1 hlarge)

theorem toList_twoDigits (n : ℕ) :
    (twoDigits n).toList = (if n < 10 then ['0'] else []) ++ Nat.toDigits 10 n := by
  have hdigits : (toString n).toList = Nat.toDigits 10 n := by
    rw [Nat.toString_eq_ofList_toDigits, String.toList_ofList]
  unfold twoDigits
  split
  · rw [String.toList_append, show (toString n : String) = toString (toString n) from rfl,
      show toString (toString n) = toString n from rfl, hdigits]
    rfl
  · exact hdigits

/-- One digit stands before the point, and the exponent is written. -/
theorem exists_shows_scientific (h : Writes ds d) :
    ∃ x : Numeral, x.negative = s ∧ x.Shows (scientific ds (ds.length + u)) d u := by
  obtain ⟨c, cs, rfl, hc⟩ := h.leads
  generalize hpower : (((c :: cs).length : ℤ) + u) = point
  have hdigits : ∀ e ∈ (twoDigits (point - 1).natAbs).toList, e.isDigit = true := by
    rw [toList_twoDigits]
    intro e he
    rcases List.mem_append.1 he with he | he
    · split at he
      · rw [List.mem_singleton.1 he]
        rfl
      · cases he
    · exact Nat.isDigit_of_mem_toDigits (by decide) (by decide) he
  have hvalue : natOf (twoDigits (point - 1).natAbs).toList = (point - 1).natAbs := by
    rw [toList_twoDigits]
    split
    · exact (natOf_zeros_append 1 _).trans (natOf_toDigits _)
    · exact natOf_toDigits _
  refine ⟨⟨s, [c], cs, some (decide (point - 1 < 0), (twoDigits (point - 1).natAbs).toList)⟩, rfl,
    ⟨?_, ?_, ?_, ?_⟩, ?_, ?_⟩
  · exact .inr ⟨c, [], rfl, hc⟩
  · exact h.digits
  · rintro _ ⟨⟩
    refine ⟨?_, hdigits⟩
    rw [toList_twoDigits]
    exact List.append_ne_nil_of_right_ne_nil _ Nat.toDigits_ne_nil
  · exact .inr rfl
  · unfold Numeral.chars Numeral.fractionChars Numeral.exponentChars scientific
    cases cs <;> by_cases hneg : point - 1 < 0 <;> simp [hneg]
  · have hshift : Numeral.shift ⟨s, [c], cs, some (decide (point - 1 < 0),
        (twoDigits (point - 1).natAbs).toList)⟩ = point - 1 := by
      simp only [Numeral.shift, hvalue, decide_eq_true_eq]
      split <;> omega
    have hunit : point - 1 - (cs.length : ℤ) = u := by
      rw [← hpower, List.length_cons]
      push_cast
      ring
    rw [hshift, hunit, show natOf ([c] ++ cs) = d from h.value]

/-! ## Texts of doubles -/

theorem after?_of_ne {c d : Char} (h : c ≠ d) (cs r : List Char) :
    after? (c :: cs) (d :: r) = none := by
  rw [after?, if_neg (by simpa using h)]

theorem ne_of_isDigit {c d : Char} (hc : c.isDigit = false) (hd : d.isDigit = true) : c ≠ d := by
  rintro rfl
  rw [hc] at hd
  cases hd

/-- What begins with a digit is read as a number. -/
theorem value?_digit {d : Char} (hd : d.isDigit = true) (r : List Char) (fuel : ℕ) :
    value? (fuel + 1) (d :: r) = number? (d :: r) := by
  have hne : ∀ c : Char, c.isDigit = false → c ≠ d := fun c hc => ne_of_isDigit hc hd
  rw [value?]
  · simp only [String.reduceToList, after?_of_ne (hne 'n' rfl), after?_of_ne (hne 't' rfl),
      after?_of_ne (hne 'f' rfl), after?_of_ne (hne 'N' rfl), after?_of_ne (hne 'I' rfl),
      after?_of_ne (hne '-' rfl)]
  · rintro r' ⟨⟩
    exact hne '"' rfl rfl
  · rintro r' ⟨⟩
    exact hne '[' rfl rfl
  · rintro r' ⟨⟩
    exact hne '\x7b' rfl rfl

/-- What begins with a minus and a digit is read as a number. -/
theorem value?_minus {d : Char} (hd : d.isDigit = true) (r : List Char) (fuel : ℕ) :
    value? (fuel + 1) ('-' :: d :: r) = number? ('-' :: d :: r) := by
  have hI : 'I' ≠ d := ne_of_isDigit rfl hd
  rw [value?]
  · simp [after?, hI]
  all_goals exact nofun

/-- What begins with no blank and no mark is a document if it is read as a value. -/
theorem read?_of_value? {c : Char} {r : List Char} {v : Json} (hc : isBlank c = false)
    (hmark : c.toNat ≠ 0xfeff)
    (h : ∀ fuel, value? (fuel + 1) (c :: r) = some (v, [])) :
    read? (String.ofList (c :: r)) = some v := by
  have hskip : skipBlanks (c :: r) = c :: r := by
    rw [skipBlanks, List.dropWhile_cons_of_neg (by simp [hc])]
  simp only [read?, String.toList_ofList, if_neg hmark, hskip]
  rw [h (2 * (c :: r).length + 1)]
  rfl

/-- A formed numeral is a document. -/
theorem read?_numeral {x : Numeral} (h : x.IsFormed) : read? (String.ofList x.chars) =
    some (.float (.ofDecimal x.negative (natOf (x.whole ++ x.fraction))
      (x.shift - x.fraction.length))) := by
  obtain ⟨d, ds, hwhole⟩ : ∃ d ds, x.whole = d :: ds :=
    h.whole.elim (fun h => ⟨_, _, h⟩) fun ⟨d, ds, h, _⟩ => ⟨d, ds, h⟩
  have hdigit : d.isDigit = true := h.digits d (by rw [hwhole]; exact List.mem_cons_self)
  have hnumber := number?_numeral h
  have hchars : x.chars = Reading.minus x.negative ++
      d :: (ds ++ (x.fractionChars ++ x.exponentChars)) := by
    rw [Numeral.chars, hwhole]
    rfl
  cases hneg : x.negative
  · rw [hneg] at hnumber hchars
    rw [hchars] at hnumber ⊢
    have hrange := Reading.isDigit_range hdigit
    refine read?_of_value? ?_ (by omega) fun fuel => (value?_digit hdigit _ fuel).trans hnumber
    simp only [isBlank, Bool.or_eq_false_iff, beq_eq_false_iff_ne, ne_eq]
    refine ⟨⟨⟨?_, ?_⟩, ?_⟩, ?_⟩ <;>
      · rintro rfl
        exact absurd hdigit (by decide)
  · rw [hneg] at hnumber hchars
    rw [hchars] at hnumber ⊢
    exact read?_of_value? rfl (by decide) fun fuel => (value?_minus hdigit _ fuel).trans hnumber

theorem exists_shows_text (s : Bool) {m : ℕ} (hm : 0 < m) {e : ℤ}
    (hd : 0 < (Binary64.shortest m e).1) : ∃ x : Numeral, x.negative = s ∧ x.IsFormed ∧
      String.ofList x.chars = (Binary64.finite s m e).text .document ∧
      (natOf (x.whole ++ x.fraction) : ℚ) * 10 ^ (x.shift - x.fraction.length) =
        (Binary64.shortest m e).1 * 10 ^ (Binary64.shortest m e).2 := by
  rcases hshortest : Binary64.shortest m e with ⟨d, u⟩
  rw [hshortest] at hd
  have hwrites := writes_toDigits hd
  have hsign : ((if s = true then "-" else "") : String).toList = Reading.minus s := by
    cases s <;> rfl
  have htext : ∀ {body : String} {x : Numeral}, x.negative = s → x.Shows body d u →
      String.ofList x.chars = (if s = true then "-" else "") ++ body := by
    intro body x hx hshows
    rw [← String.toList_inj, String.toList_ofList, String.toList_append, hsign, hshows.chars, hx]
  rw [Binary64.text, if_neg hm.ne', hshortest]
  dsimp only
  generalize ((if s = true then "-" else "") : String) = sign at htext ⊢
  split
  · obtain ⟨x, hx, hshows⟩ := exists_shows_positional (u := u) s hwrites
    exact ⟨x, hx, hshows.formed, htext hx hshows, hshows.value⟩
  · obtain ⟨x, hx, hshows⟩ := exists_shows_scientific (u := u) s hwrites
    exact ⟨x, hx, hshows.formed, htext hx hshows, hshows.value⟩

/-- Every proper double is read from its text. -/
theorem read?_float {x : Binary64} (hx : x.IsProper) :
    read? (x.text .document) = some (.float x) := by
  cases x with
  | nan => rfl
  | infinite s => cases s <;> rfl
  | finite s m e =>
    have hfits : Binary64.Fits m e := hx
    rcases Nat.eq_zero_or_pos m with rfl | hm
    · obtain rfl : e = Binary64.minExponent := hfits.normal.resolve_left (by decide)
      cases s <;> rfl
    · obtain ⟨hd, hreach⟩ := Binary64.shortest_reaches hm hfits
      obtain ⟨x, rfl, hformed, htext, hvalue⟩ := exists_shows_text s hm hd
      rw [← htext, read?_numeral hformed, Binary64.ofDecimal_eq hm hfits (hvalue ▸ hreach)]

end Hypermedia.Json
