import Hypermedia.Proofs.Number.Rounding

/-!
# Numbers in the range of doubles

A number is rounded to a finite double if it is below the middle between the greatest double and
the next power of two (`Binary64.isFinite_ofRatio`, `Binary64.isFinite_ofDecimal`).
-/

namespace Hypermedia

theorem roundHalfEven_lt {n d k : ℕ} (h : 2 * n + d < 2 * (d * k)) : roundHalfEven n d < k := by
  have hd : 0 < d := Nat.pos_of_ne_zero fun hzero => by simp [hzero] at h
  have hn := Nat.div_add_mod n d
  have hr := Nat.mod_lt n hd
  unfold roundHalfEven
  generalize n / d = q at hn
  generalize n % d = r at hn hr
  subst hn
  dsimp only
  split
  · exact Nat.lt_of_mul_lt_mul_left (a := d) (by omega)
  · have hnext : d * (q + 1) < d * k := by
      rw [Nat.mul_succ]
      omega
    have hlt := Nat.lt_of_mul_lt_mul_left hnext
    split
    · exact hlt
    · omega

namespace Binary64

/-- From here on numbers are too large for the format. -/
def rangeEnd : ℚ := (2 ^ 54 - 1) * 2 ^ 970

theorem rangeEnd_lt : rangeEnd < 2 ^ (1024 : ℤ) := by
  have hpow : (2 : ℚ) ^ (1024 : ℤ) = 2 ^ 54 * 2 ^ 970 := by
    rw [show (1024 : ℤ) = ((54 + 970 : ℕ) : ℤ) from rfl, zpow_natCast, pow_add]
  rw [rangeEnd, hpow]
  exact mul_lt_mul_of_pos_right (by norm_num) (by positivity)

theorem isFinite_ofRatio (s : Bool) {num den : ℕ} (hden : 0 < den)
    (h : (num : ℚ) / den < rangeEnd) : (ofRatio s num den).isFinite = true := by
  rcases Nat.eq_zero_or_pos num with rfl | hnum
  · rfl
  obtain ⟨E, hE, hlow, -⟩ := exponentOf_spec hnum hden
  have hexp : 52 + E < 1024 :=
    (zpow_lt_zpow_iff_right₀ one_lt_two).1 (hlow.trans_lt (h.trans rangeEnd_lt))
  rw [ofRatio, if_neg hnum.ne']
  dsimp only
  generalize exponentOf num den = e at hE ⊢
  have hmin : minExponent = -1074 := rfl
  have hmax : maxExponent = 971 := rfl
  have he : e ≤ 971 := by omega
  -- At the last exponent the mantissa is not rounded up to the next power of two.
  have hlast : e = 971 → roundHalfEven (scaled num den e).1 (scaled num den e).2 < 2 ^ 53 := by
    rintro rfl
    have hpos := @scaled_pos num _ hden 971
    have hratio := scaled_ratio num den 971
    generalize (scaled num den 971).1 = n at hratio ⊢
    generalize (scaled num den 971).2 = d at hpos hratio ⊢
    refine roundHalfEven_lt ?_
    have hd : (0 : ℚ) < d := by exact_mod_cast hpos
    have hlt : (n : ℚ) / d < 2 ^ 53 - 1 / 2 := by
      have hpow : (2 : ℚ) ^ (971 : ℤ) = 2 * 2 ^ 970 := by
        rw [show (971 : ℤ) = ((970 + 1 : ℕ) : ℤ) from rfl, zpow_natCast, pow_succ']
      rw [hratio, div_lt_iff₀ (by positivity)]
      refine h.trans_eq ?_
      rw [rangeEnd, hpow]
      generalize (2 : ℚ) ^ 970 = p
      ring
    rw [div_lt_iff₀ hd] at hlt
    have hq : 2 * (n : ℚ) + d < 2 * (d * 2 ^ 53) := by linarith
    exact_mod_cast hq
  split
  · rw [if_neg (by omega)]
    rfl
  · next hround =>
    have hne : e ≠ 971 := fun heq => hround (hlast heq)
    dsimp only
    rw [if_neg (by omega)]
    rfl

/-- A decimal in the range is rounded to a finite double. -/
theorem isFinite_ofDecimal (s : Bool) {c : ℕ} {u : ℤ} (h : (c : ℚ) * 10 ^ u < rangeEnd) :
    (ofDecimal s c u).isFinite = true := by
  rcases Nat.eq_zero_or_pos c with rfl | hc
  · rfl
  rw [ofDecimal, if_neg hc.ne']
  dsimp only
  rw [if_neg (not_lt.2 (digitCount_add_le hc (h.trans rangeEnd_lt)))]
  split
  · rfl
  split
  · next hu =>
    obtain ⟨k, rfl⟩ := Int.eq_ofNat_of_zero_le hu
    refine isFinite_ofRatio s one_pos ?_
    convert h using 1
    push_cast
    simp
  · next hu =>
    obtain ⟨k, hk⟩ := Int.eq_ofNat_of_zero_le (show 0 ≤ -u by omega)
    obtain rfl : u = -k := by omega
    refine isFinite_ofRatio s (Nat.pow_pos (by decide)) ?_
    convert h using 1
    simp [div_eq_mul_inv]

end Binary64

end Hypermedia
