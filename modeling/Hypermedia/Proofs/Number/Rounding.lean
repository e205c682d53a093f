import Hypermedia.Number.Binary64
import Mathlib.Algebra.Order.Field.Power
import Mathlib.Algebra.Order.Field.Rat
import Mathlib.Tactic.FieldSimp
import Mathlib.Tactic.Linarith
import Mathlib.Tactic.Positivity
import Mathlib.Tactic.Ring

/-!
# Rounding to doubles

A proper double has the mantissa and the exponent that the format allows (`Binary64.IsProper`), and
rounding gives no others (`Binary64.isProper_ofRatio`, `Binary64.isProper_ofDecimal`). A positive
rational within half a gap of a proper double, or at the end of such a gap if the mantissa is even
(`Binary64.Reaches`), is rounded to it (`Binary64.ofRatio_eq`, `Binary64.ofDecimal_eq`). In
particular the value of a proper double is rounded to the double.
-/

namespace Hypermedia

/-! ## Rounding to integers -/

/-- The integer is nearest to the number; of two that are equally near it is the even one. -/
structure IsNearest (y : ℚ) (m : ℕ) : Prop where
  low : (m : ℚ) - 1 / 2 ≤ y
  high : y ≤ m + 1 / 2
  even : y = m - 1 / 2 ∨ y = m + 1 / 2 → m % 2 = 0

theorem roundHalfEven_eq {n d m : ℕ} (hd : 0 < d) (h : IsNearest (n / d) m) :
    roundHalfEven n d = m := by
  have hdq : (0 : ℚ) < d := by exact_mod_cast hd
  have hlow : 2 * (m * d) ≤ 2 * n + d := by
    have := h.low
    rw [le_div_iff₀ hdq] at this
    have hq : (2 : ℚ) * (m * d) ≤ 2 * n + d := by linarith
    exact_mod_cast hq
  have hhigh : 2 * n ≤ 2 * (m * d) + d := by
    have := h.high
    rw [div_le_iff₀ hdq] at this
    have hq : (2 : ℚ) * n ≤ 2 * (m * d) + d := by linarith
    exact_mod_cast hq
  have heven : 2 * (m * d) = 2 * n + d ∨ 2 * n = 2 * (m * d) + d → m % 2 = 0 := by
    intro htie
    refine h.even (htie.imp (fun htie => ?_) fun htie => ?_)
    · rw [div_eq_iff hdq.ne']
      have hq : (2 : ℚ) * (m * d) = 2 * n + d := by exact_mod_cast htie
      linarith
    · rw [div_eq_iff hdq.ne']
      have hq : (2 : ℚ) * n = 2 * (m * d) + d := by exact_mod_cast htie
      linarith
  have hn := Nat.div_add_mod n d
  have hr := Nat.mod_lt n hd
  unfold roundHalfEven
  generalize n / d = q at hn
  generalize n % d = r at hn hr
  subst hn
  have hcomm : q * d = d * q := Nat.mul_comm q d
  -- The number is at most one above its integer part, and not below it.
  obtain rfl | rfl : m = q ∨ m = q + 1 := by
    have habove : m < q + 2 := by
      by_contra hge
      have := Nat.mul_le_mul_right d (Nat.not_lt.1 hge)
      rw [Nat.add_mul] at this
      omega
    have hbelow : q ≤ m := by
      by_contra hlt
      have := Nat.mul_le_mul_right d (Nat.succ_le_of_lt (Nat.not_le.1 hlt))
      rw [Nat.succ_mul] at this
      omega
    omega
  · dsimp only
    split
    · rfl
    · split <;> omega
  · rw [Nat.add_mul] at hlow hhigh heven
    dsimp only
    split
    · omega
    · split <;> omega

theorem roundHalfEven_le {n d k : ℕ} (hd : 0 < d) (h : n < k * d) : roundHalfEven n d ≤ k := by
  have hq : n / d < k := (Nat.div_lt_iff_lt_mul hd).2 h
  unfold roundHalfEven
  dsimp only
  split
  · omega
  · split <;> omega

theorem le_roundHalfEven {n d k : ℕ} (hd : 0 < d) (h : k * d ≤ n) : k ≤ roundHalfEven n d := by
  have hq : k ≤ n / d := (Nat.le_div_iff_mul_le hd).2 h
  unfold roundHalfEven
  dsimp only
  split
  · exact hq
  · split <;> omega

namespace Binary64

/-! ## Proper doubles -/

/-- A mantissa and an exponent that the format allows. -/
structure Fits (m : ℕ) (e : ℤ) : Prop where
  mantissa : m < 2 ^ 53
  low : minExponent ≤ e
  high : e ≤ maxExponent
  normal : 2 ^ 52 ≤ m ∨ e = minExponent

/-- Every double but those with a mantissa or an exponent that the format does not allow. -/
def IsProper : Binary64 → Prop
  | .finite _ m e => Fits m e
  | _ => True

/-- The gap to the next double below `m · 2^e`, in quarters of `2^e`, halved. -/
def gapBelow (m : ℕ) (e : ℤ) : ℕ := if m == 2 ^ 52 && e != minExponent then 1 else 2

/-- The number lies within half a gap of `m · 2^e`, at the end of the gap only if `m` is even. -/
structure Reaches (x : ℚ) (m : ℕ) (e : ℤ) : Prop where
  low : ((m : ℚ) - gapBelow m e / 4) * 2 ^ e ≤ x
  high : x ≤ ((m : ℚ) + 1 / 2) * 2 ^ e
  even : x = ((m : ℚ) - gapBelow m e / 4) * 2 ^ e ∨ x = ((m : ℚ) + 1 / 2) * 2 ^ e → m % 2 = 0

/-! ## Scaling -/

theorem scaled_pos {num den : ℕ} (hden : 0 < den) (e : ℤ) : 0 < (scaled num den e).2 := by
  unfold scaled
  split
  · exact Nat.mul_pos hden (Nat.pow_pos (by decide))
  · exact hden

theorem scaled_ratio (num den : ℕ) (e : ℤ) :
    ((scaled num den e).1 : ℚ) / (scaled num den e).2 = num / den / 2 ^ e := by
  unfold scaled
  split
  · next he =>
    obtain ⟨n, rfl⟩ := Int.eq_ofNat_of_zero_le he
    simp [div_div]
  · next he =>
    obtain ⟨n, hn⟩ := Int.eq_ofNat_of_zero_le (show 0 ≤ -e by omega)
    obtain rfl : e = -n := by omega
    simp [mul_div_right_comm]

theorem scaled_div_lt_iff {num den : ℕ} (hden : 0 < den) {e : ℤ} {k : ℕ} :
    (scaled num den e).1 / (scaled num den e).2 < k ↔ (num : ℚ) / den < k * 2 ^ e := by
  have hpos := @scaled_pos num _ hden e
  have hposq : (0 : ℚ) < (scaled num den e).2 := by exact_mod_cast hpos
  have hpow : (0 : ℚ) < 2 ^ e := by positivity
  rw [Nat.div_lt_iff_lt_mul hpos, ← div_lt_iff₀ hpow, ← scaled_ratio, div_lt_iff₀ hposq]
  exact_mod_cast Iff.rfl

/-! ## Exponents -/

theorem two_zpow_add (k : ℕ) [k.AtLeastTwo] (e : ℤ) :
    (2 : ℚ) ^ ((OfNat.ofNat k : ℤ) + e) = 2 ^ (OfNat.ofNat k : ℕ) * 2 ^ e := by
  rw [zpow_add₀ two_ne_zero, zpow_ofNat]

theorem two_zpow_log2_le {num den : ℕ} (hnum : 0 < num) (hden : 0 < den) :
    (2 : ℚ) ^ ((num.log2 : ℤ) - den.log2 - 1) ≤ num / den := by
  have hlow : (2 : ℚ) ^ num.log2 ≤ num := by exact_mod_cast Nat.log2_self_le hnum.ne'
  have hhigh : (den : ℚ) ≤ 2 ^ (den.log2 + 1) := by exact_mod_cast Nat.lt_log2_self.le
  rw [show (num.log2 : ℤ) - den.log2 - 1 = (num.log2 : ℤ) - ((den.log2 + 1 : ℕ) : ℤ) by
      push_cast; ring,
    zpow_sub₀ two_ne_zero, zpow_natCast, zpow_natCast]
  exact div_le_div₀ (by positivity) hlow (by exact_mod_cast hden) hhigh

theorem lt_two_zpow_log2 (num : ℕ) {den : ℕ} (hden : 0 < den) :
    (num : ℚ) / den < 2 ^ ((num.log2 : ℤ) - den.log2 + 1) := by
  have hhigh : (num : ℚ) < 2 ^ (num.log2 + 1) := by exact_mod_cast Nat.lt_log2_self
  have hlow : (2 : ℚ) ^ den.log2 ≤ den := by exact_mod_cast Nat.log2_self_le hden.ne'
  rw [show (num.log2 : ℤ) - den.log2 + 1 = ((num.log2 + 1 : ℕ) : ℤ) - (den.log2 : ℤ) by
      push_cast; ring,
    zpow_sub₀ two_ne_zero, zpow_natCast, zpow_natCast]
  exact div_lt_div₀ hhigh hlow (by positivity) (by positivity)

/-- The exponent is the one at which the mantissa has 53 binary digits, or the least one. -/
theorem exponentOf_spec {num den : ℕ} (hnum : 0 < num) (hden : 0 < den) :
    ∃ E : ℤ, exponentOf num den = max E minExponent ∧
      (2 : ℚ) ^ (52 + E) ≤ num / den ∧ (num : ℚ) / den < 2 ^ (53 + E) := by
  have hlow := two_zpow_log2_le hnum hden
  have hhigh := lt_two_zpow_log2 num hden
  unfold exponentOf
  generalize (num.log2 : ℤ) - den.log2 = a at hlow hhigh
  have htest : (scaled num den (a - 53)).1 / (scaled num den (a - 53)).2 < Nat.pow 2 53 ↔
      (num : ℚ) / den < 2 ^ a := by
    rw [scaled_div_lt_iff hden, show Nat.pow 2 53 = 2 ^ 53 from rfl, Nat.cast_pow, Nat.cast_ofNat,
      ← zpow_natCast, ← zpow_add₀ two_ne_zero]
    norm_num
  refine ⟨if (scaled num den (a - 53)).1 / (scaled num den (a - 53)).2 < Nat.pow 2 53 then a - 53
    else a - 53 + 1, rfl, ?_⟩
  by_cases h : (num : ℚ) / den < 2 ^ a
  · rw [if_pos (htest.2 h)]
    exact ⟨by rwa [show 52 + (a - 53) = a - 1 by ring], by rwa [show 53 + (a - 53) = a by ring]⟩
  · rw [if_neg (mt htest.1 h)]
    exact ⟨by rw [show 52 + (a - 53 + 1) = a by ring]; exact not_lt.1 h,
      by rwa [show 53 + (a - 53 + 1) = a + 1 by ring]⟩

/-- The exponent of a number is that of the doubles around it. -/
theorem exponentOf_eq {num den : ℕ} (hnum : 0 < num) (hden : 0 < den) {e : ℤ}
    (he : minExponent ≤ e) (hhigh : (num : ℚ) / den < 2 ^ (53 + e))
    (hlow : (2 : ℚ) ^ (52 + e) ≤ num / den ∨ e = minExponent) : exponentOf num den = e := by
  obtain ⟨E, hE, hlowE, hhighE⟩ := exponentOf_spec hnum hden
  have hle : 52 + E < 53 + e := (zpow_lt_zpow_iff_right₀ one_lt_two).1 (hlowE.trans_lt hhigh)
  rw [hE]
  rcases hlow with hlow | rfl
  · have hge : 52 + e < 53 + E := (zpow_lt_zpow_iff_right₀ one_lt_two).1 (hlow.trans_lt hhighE)
    omega
  · omega

/-! ## The double that is reached -/

theorem gapBelow_le (m : ℕ) (e : ℤ) : (gapBelow m e : ℚ) ≤ 2 := by
  unfold gapBelow
  split <;> norm_num

/-- On the grid of its own exponent a double is the nearest point to what reaches it. -/
theorem Reaches.isNearest {x : ℚ} {m : ℕ} {e : ℤ} (h : Reaches x m e) :
    IsNearest (x / 2 ^ e) m := by
  have hpow : (0 : ℚ) < 2 ^ e := by positivity
  have hgap := gapBelow_le m e
  have hlow := (le_div_iff₀ hpow).2 h.low
  refine ⟨by linarith, (div_le_iff₀ hpow).2 h.high, ?_⟩
  rintro (htie | htie)
  · have htwo : (gapBelow m e : ℚ) = 2 := by linarith
    refine h.even (.inl ?_)
    rw [htwo, ← div_eq_iff hpow.ne', htie]
    norm_num
  · exact h.even (.inr ((div_eq_iff hpow.ne').1 htie))

/-- What rounding gives, from the exponent of the number and the nearest point on its grid. -/
theorem ofRatio_of_isNearest {s : Bool} {num den m : ℕ} {e : ℤ} (hnum : 0 < num) (hden : 0 < den)
    (he : exponentOf num den = e) (hm : IsNearest ((num : ℚ) / den / 2 ^ e) m) :
    ofRatio s num den =
      if m < 2 ^ 53 then if maxExponent < e then .infinite s else .finite s m e
      else if maxExponent < e + 1 then .infinite s else .finite s (2 ^ 52) (e + 1) := by
  rw [← scaled_ratio] at hm
  have hround := roundHalfEven_eq (scaled_pos hden e) hm
  rw [ofRatio, if_neg hnum.ne']
  simp only [he, hround]
  by_cases hsmall : m < 2 ^ 53
  · rw [if_pos hsmall, if_pos (show m < Nat.pow 2 53 from hsmall)]
  · rw [if_neg hsmall, if_neg (show ¬m < Nat.pow 2 53 from hsmall)]
    rfl

/-- A positive number is rounded to the double that it reaches. -/
theorem ofRatio_eq {s : Bool} {num den m : ℕ} {e : ℤ} (hden : 0 < den) (hm : 0 < m)
    (hfits : Fits m e) (h : Reaches (num / den) m e) :
    ofRatio s num den = .finite s m e := by
  have hpow : (0 : ℚ) < 2 ^ e := by positivity
  have hgap := gapBelow_le m e
  have hmq : (1 : ℚ) ≤ m := by exact_mod_cast hm
  have hpos : (0 : ℚ) < (num : ℚ) / den := by
    refine lt_of_lt_of_le ?_ h.low
    exact mul_pos (by linarith) hpow
  have hnum : 0 < num := by
    rcases Nat.eq_zero_or_pos num with rfl | hnum
    · simp at hpos
    · exact hnum
  have hlow := (le_div_iff₀ hpow).2 h.low
  have hhigh := (div_le_iff₀ hpow).2 h.high
  have hmax : (m : ℚ) ≤ 2 ^ 53 - 1 := by
    have := hfits.mantissa
    have hq : (m : ℚ) + 1 ≤ 2 ^ 53 := by exact_mod_cast this
    linarith
  by_cases hcarry : (num : ℚ) / den < 2 ^ (52 + e) ∧ e ≠ minExponent
  · -- The number is below the power of two that it reaches, on the finer grid there.
    obtain ⟨hbelow, he⟩ := hcarry
    have hfull : 2 ^ 52 ≤ m := hfits.normal.resolve_right he
    rw [two_zpow_add, ← div_lt_iff₀ hpow] at hbelow
    obtain rfl : m = 2 ^ 52 := by
      refine Nat.le_antisymm (Nat.lt_succ_iff.1 ?_) hfull
      have hq : (m : ℚ) < 2 ^ 52 + 1 := by linarith
      exact_mod_cast hq
    have hgap : gapBelow (2 ^ 52) e = 1 := by simp [gapBelow, he]
    rw [hgap] at hlow
    have hhalf : (num : ℚ) / den / 2 ^ (e - 1) = 2 * ((num : ℚ) / den / 2 ^ e) := by
      rw [zpow_sub_one₀ two_ne_zero]
      field_simp
    have hexp : exponentOf num den = e - 1 := by
      have := hfits.low
      refine exponentOf_eq hnum hden (by omega) ?_ (.inl ?_)
      · rw [show 53 + (e - 1) = 52 + e by ring, two_zpow_add, ← div_lt_iff₀ hpow]
        exact hbelow
      · rw [show 52 + (e - 1) = 51 + e by ring, two_zpow_add, ← le_div_iff₀ hpow]
        norm_num at hlow ⊢
        linarith
    have hnear : IsNearest ((num : ℚ) / den / 2 ^ (e - 1)) (2 ^ 53) := by
      rw [hhalf]
      refine ⟨?_, ?_, fun _ => by decide⟩
      · norm_num at hlow ⊢
        linarith
      · norm_num at hbelow ⊢
        linarith
    have := hfits.high
    rw [ofRatio_of_isNearest hnum hden hexp hnear, if_neg (lt_irrefl _), sub_add_cancel,
      if_neg (not_lt.2 this)]
  · have hexp : exponentOf num den = e := by
      refine exponentOf_eq hnum hden hfits.low ?_ ?_
      · rw [two_zpow_add, ← div_lt_iff₀ hpow]
        linarith
      · by_contra hnone
        rw [not_or, not_le] at hnone
        exact hcarry hnone
    rw [ofRatio_of_isNearest hnum hden hexp h.isNearest, if_pos hfits.mantissa,
      if_neg (not_lt.2 hfits.high)]

/-- The value of a double reaches the double. -/
theorem reaches_self (m : ℕ) (e : ℤ) : Reaches (m * 2 ^ e) m e := by
  have hpow : (0 : ℚ) < 2 ^ e := by positivity
  have hgap : (0 : ℚ) < gapBelow m e := by
    unfold gapBelow
    split <;> norm_num
  have hlow : ((m : ℚ) - gapBelow m e / 4) * 2 ^ e < m * 2 ^ e :=
    mul_lt_mul_of_pos_right (by linarith) hpow
  have hhigh : (m : ℚ) * 2 ^ e < (m + 1 / 2) * 2 ^ e :=
    mul_lt_mul_of_pos_right (by linarith) hpow
  exact ⟨hlow.le, hhigh.le, fun htie => absurd htie (not_or.2 ⟨hlow.ne', hhigh.ne⟩)⟩

theorem isProper_zero (s : Bool) : (zero s).IsProper :=
  ⟨by decide, by decide, by decide, .inr rfl⟩

/-- Rounding gives proper doubles. -/
theorem isProper_ofRatio (s : Bool) (num : ℕ) {den : ℕ} (hden : 0 < den) :
    (ofRatio s num den).IsProper := by
  rcases Nat.eq_zero_or_pos num with rfl | hnum
  · exact isProper_zero s
  obtain ⟨E, hE, hlow, hhigh⟩ := exponentOf_spec hnum hden
  rw [ofRatio, if_neg hnum.ne']
  dsimp only
  generalize exponentOf num den = e at hE ⊢
  have hpos := @scaled_pos num _ hden e
  have hle : roundHalfEven (scaled num den e).1 (scaled num den e).2 ≤ 2 ^ 53 := by
    refine roundHalfEven_le hpos ((Nat.div_lt_iff_lt_mul hpos).1 ((scaled_div_lt_iff hden).2 ?_))
    have hexp : (2 : ℚ) ^ (53 + E) ≤ 2 ^ (53 + e) :=
      zpow_le_zpow_right₀ one_le_two (by omega)
    rw [two_zpow_add 53 e] at hexp
    exact_mod_cast hhigh.trans_le hexp
  have hge : 2 ^ 52 ≤ roundHalfEven (scaled num den e).1 (scaled num den e).2 ∨
      e = minExponent := by
    rcases le_total E minExponent with hsub | hnormal
    · exact .inr (hE.trans (max_eq_right hsub))
    · obtain rfl : e = E := hE.trans (max_eq_left hnormal)
      refine .inl (le_roundHalfEven hpos ((Nat.le_div_iff_mul_le hpos).1 ?_))
      refine not_lt.1 fun hlt => absurd ((scaled_div_lt_iff hden).1 hlt) (not_lt.2 ?_)
      rw [two_zpow_add] at hlow
      exact_mod_cast hlow
  generalize roundHalfEven _ _ = m at hle hge ⊢
  have hmin : minExponent ≤ e := hE ▸ le_max_right _ _
  by_cases hsmall : m < Nat.pow 2 53
  · simp only [if_pos hsmall]
    split
    · trivial
    · next hmax => exact ⟨hsmall, hmin, not_lt.1 hmax, hge⟩
  · simp only [if_neg hsmall]
    split
    · trivial
    · next hmax => exact ⟨by decide, by omega, not_lt.1 hmax, .inl (le_refl _)⟩

theorem isProper_ofDecimal (s : Bool) (c : ℕ) (e : ℤ) : (ofDecimal s c e).IsProper := by
  unfold ofDecimal
  dsimp only
  split
  · exact isProper_zero s
  · split
    · trivial
    · split
      · exact isProper_zero s
      · split
        · exact isProper_ofRatio s _ (by decide)
        · exact isProper_ofRatio s _ (Nat.pow_pos (by decide))

/-! ## Decimals -/

theorem digitCount_pos (c : ℕ) : 0 < digitCount c :=
  List.length_pos_of_ne_nil Nat.toDigits_ne_nil

/-- The number of digits tells the size of a number. -/
theorem digitCount_bounds {c : ℕ} (hc : 0 < c) :
    (10 : ℚ) ^ ((digitCount c : ℤ) - 1) ≤ c ∧ (c : ℚ) < 10 ^ (digitCount c : ℤ) := by
  obtain ⟨k, hk⟩ := Nat.exists_eq_succ_of_ne_zero (digitCount_pos c).ne'
  have hhigh : c < 10 ^ (k + 1) :=
    (Nat.length_toDigits_le_iff (by decide) (Nat.succ_pos k)).1 hk.le
  have hlow : 10 ^ k ≤ c := by
    rcases Nat.eq_zero_or_pos k with rfl | hpos
    · exact hc
    · refine Nat.not_lt.1 fun hlt => ?_
      have := (Nat.length_toDigits_le_iff (by decide) hpos).2 hlt
      rw [show (Nat.toDigits 10 c).length = k + 1 from hk] at this
      omega
  rw [hk, show ((k.succ : ℕ) : ℤ) - 1 = (k : ℕ) by push_cast; ring, zpow_natCast, zpow_natCast]
  exact ⟨by exact_mod_cast hlow, by exact_mod_cast hhigh⟩

/-- What reaches a double is neither too large nor too small to be rounded to it. -/
theorem Reaches.bounds {x : ℚ} {m : ℕ} {e : ℤ} (hm : 0 < m) (hfits : Fits m e)
    (h : Reaches x m e) : (2 : ℚ) ^ (-1075 : ℤ) ≤ x ∧ x < 2 ^ (1024 : ℤ) := by
  have hgap := gapBelow_le m e
  have hpow : (0 : ℚ) < 2 ^ e := by positivity
  have hmq : (1 : ℚ) ≤ m := by exact_mod_cast hm
  have hmax : (m : ℚ) + 1 ≤ 2 ^ 53 := by exact_mod_cast hfits.mantissa
  constructor
  · have hleast : (2 : ℚ) ^ (-1074 : ℤ) ≤ 2 ^ e := zpow_le_zpow_right₀ one_le_two hfits.low
    calc (2 : ℚ) ^ (-1075 : ℤ) = 1 / 2 * 2 ^ (-1074 : ℤ) := by
          rw [show (-1075 : ℤ) = -1 + -1074 by norm_num, zpow_add₀ two_ne_zero]
          norm_num
      _ ≤ 1 / 2 * 2 ^ e := by linarith
      _ ≤ ((m : ℚ) - gapBelow m e / 4) * 2 ^ e := mul_le_mul_of_nonneg_right (by linarith) hpow.le
      _ ≤ x := h.low
  · have hgreatest : (2 : ℚ) ^ e ≤ 2 ^ (971 : ℤ) := zpow_le_zpow_right₀ one_le_two hfits.high
    calc x ≤ ((m : ℚ) + 1 / 2) * 2 ^ e := h.high
      _ < 2 ^ 53 * 2 ^ e := mul_lt_mul_of_pos_right (by linarith) hpow
      _ ≤ 2 ^ 53 * 2 ^ (971 : ℤ) := by linarith
      _ = 2 ^ (1024 : ℤ) := by rw [← two_zpow_add]; rfl

/-- A number of more than 320 digits before the point is larger than every double. -/
theorem digitCount_add_le {c : ℕ} (hc : 0 < c) {u : ℤ} (h : (c : ℚ) * 10 ^ u < 2 ^ (1024 : ℤ)) :
    (digitCount c : ℤ) + u ≤ 320 := by
  by_contra hlarge
  have hten : (0 : ℚ) < 10 ^ u := by positivity
  have hpow : (10 : ℚ) ^ (320 : ℤ) ≤ c * 10 ^ u := by
    calc (10 : ℚ) ^ (320 : ℤ) ≤ 10 ^ ((digitCount c : ℤ) - 1 + u) :=
          zpow_le_zpow_right₀ (by norm_num) (by omega)
      _ = 10 ^ ((digitCount c : ℤ) - 1) * 10 ^ u := zpow_add₀ (by norm_num) _ _
      _ ≤ c * 10 ^ u := mul_le_mul_of_nonneg_right (digitCount_bounds hc).1 hten.le
  have hgap : (2 : ℚ) ^ (1024 : ℤ) < 10 ^ (320 : ℤ) := by
    have hnat : 2 ^ 1024 < 10 ^ 320 := by decide +kernel
    exact_mod_cast hnat
  exact absurd (h.trans hgap) (not_lt.2 hpow)

/-- A positive decimal is rounded to the double that it reaches. -/
theorem ofDecimal_eq {s : Bool} {c m : ℕ} {u e : ℤ} (hm : 0 < m) (hfits : Fits m e)
    (h : Reaches (c * 10 ^ u) m e) : ofDecimal s c u = .finite s m e := by
  obtain ⟨hlow, hhigh⟩ := h.bounds hm hfits
  have hten : (0 : ℚ) < 10 ^ u := by positivity
  have hc : 0 < c := by
    rcases Nat.eq_zero_or_pos c with rfl | hc
    · have hpos : (0 : ℚ) < 2 ^ (-1075 : ℤ) := by positivity
      simp only [Nat.cast_zero, zero_mul] at hlow
      exact absurd hlow (not_le.2 hpos)
    · exact hc
  have hsmall := digitCount_add_le hc hhigh
  have hlarge : -340 ≤ (digitCount c : ℤ) + u := by
    by_contra hsmall
    have hpow : (c : ℚ) * 10 ^ u < 10 ^ (-341 : ℤ) := by
      calc (c : ℚ) * 10 ^ u < 10 ^ (digitCount c : ℤ) * 10 ^ u :=
            mul_lt_mul_of_pos_right (digitCount_bounds hc).2 hten
        _ = 10 ^ ((digitCount c : ℤ) + u) := (zpow_add₀ (by norm_num) _ _).symm
        _ ≤ 10 ^ (-341 : ℤ) := zpow_le_zpow_right₀ (by norm_num) (by omega)
    have hgap : (10 : ℚ) ^ (-341 : ℤ) < 2 ^ (-1075 : ℤ) := by
      have hnat : 2 ^ 1075 < 10 ^ 341 := by decide +kernel
      have hpos : (0 : ℚ) < 2 ^ 1075 := by positivity
      rw [zpow_neg, zpow_neg]
      exact inv_strictAnti₀ hpos (by exact_mod_cast hnat)
    exact absurd (hpow.trans hgap) (not_lt.2 hlow)
  rw [ofDecimal, if_neg hc.ne']
  dsimp only
  rw [if_neg (not_lt.2 hsmall), if_neg (not_lt.2 hlarge)]
  split
  · next hu =>
    obtain ⟨k, rfl⟩ := Int.eq_ofNat_of_zero_le hu
    refine ofRatio_eq one_pos hm hfits ?_
    convert h using 1
    push_cast
    simp
  · next hu =>
    obtain ⟨k, hk⟩ := Int.eq_ofNat_of_zero_le (show 0 ≤ -u by omega)
    obtain rfl : u = -k := by omega
    refine ofRatio_eq (Nat.pow_pos (by decide)) hm hfits ?_
    convert h using 1
    simp [div_eq_mul_inv]

end Binary64

end Hypermedia
