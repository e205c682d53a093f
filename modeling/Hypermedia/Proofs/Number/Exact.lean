import Hypermedia.Number.Decimal
import Hypermedia.Proofs.Number.Rounding

/-!
# Decimals with the value of a double

Two decimals are equal if they have the same value (`Decimal.numEq_iff`), and the decimal of a
double has its value (`Decimal.ofBinary64_value`). So a decimal that has the value of a double is
rounded to the double and is equal to the decimal of what it is rounded to
(`Decimal.numEq_rounded_iff`).
-/

namespace Hypermedia.Decimal

open Binary64 (digitCount ofDecimal IsProper)

/-- The value of a finite decimal. -/
def value (s : Bool) (c : ℕ) (e : ℤ) : ℚ := (if s then -1 else 1) * (c * 10 ^ e)

/-! ## Equality -/

/-- A positive number has one number of digits before the point. -/
theorem digitCount_add_eq {c c' : ℕ} {e e' : ℤ} (hc : 0 < c) (hc' : 0 < c')
    (h : (c : ℚ) * 10 ^ e = c' * 10 ^ e') : (digitCount c : ℤ) + e = digitCount c' + e' := by
  have hle : ∀ {c c' : ℕ} {e e' : ℤ}, 0 < c → 0 < c' → (c : ℚ) * 10 ^ e = c' * 10 ^ e' →
      (digitCount c : ℤ) + e ≤ digitCount c' + e' := by
    intro c c' e e' hc hc' h
    have hlow := (Binary64.digitCount_bounds hc).1
    have hhigh := (Binary64.digitCount_bounds hc').2
    have hpow : (0 : ℚ) < 10 ^ e := by positivity
    have hpow' : (0 : ℚ) < 10 ^ e' := by positivity
    have hlt : (10 : ℚ) ^ ((digitCount c : ℤ) - 1 + e) < 10 ^ ((digitCount c' : ℤ) + e') := by
      rw [zpow_add₀ (by norm_num), zpow_add₀ (by norm_num)]
      calc (10 : ℚ) ^ ((digitCount c : ℤ) - 1) * 10 ^ e ≤ c * 10 ^ e :=
            mul_le_mul_of_nonneg_right hlow hpow.le
        _ = c' * 10 ^ e' := h
        _ < 10 ^ (digitCount c' : ℤ) * 10 ^ e' := mul_lt_mul_of_pos_right hhigh hpow'
    have := (zpow_lt_zpow_iff_right₀ (by norm_num)).1 hlt
    omega
  exact le_antisymm (hle hc hc' h) (hle hc' hc h.symm)

theorem scaled_eq_iff {c c' : ℕ} {e e' : ℤ} (h : e ≤ e') :
    c = c' * 10 ^ (e' - e).toNat ↔ (c : ℚ) * 10 ^ e = c' * 10 ^ e' := by
  obtain ⟨k, hk⟩ := Int.eq_ofNat_of_zero_le (show 0 ≤ e' - e by omega)
  obtain rfl : e' = k + e := by omega
  have hpow : (10 : ℚ) ^ e ≠ 0 := by positivity
  rw [zpow_add₀ (by norm_num), ← mul_assoc, mul_left_inj' hpow, zpow_natCast]
  simp only [add_sub_cancel_right, Int.toNat_natCast]
  exact_mod_cast Iff.rfl

theorem sameMagnitude_iff {c c' : ℕ} {e e' : ℤ} :
    sameMagnitude c e c' e' = true ↔ (c : ℚ) * 10 ^ e = c' * 10 ^ e' := by
  have hpow : (10 : ℚ) ^ e ≠ 0 := by positivity
  have hpow' : (10 : ℚ) ^ e' ≠ 0 := by positivity
  unfold sameMagnitude
  split
  · next hzero =>
    simp only [Bool.or_eq_true, decide_eq_true_eq] at hzero
    rcases hzero with rfl | rfl
    · rw [beq_iff_eq, Nat.cast_zero, zero_mul, eq_comm, eq_comm (a := (0 : ℚ)), mul_eq_zero,
        or_iff_left hpow', Nat.cast_eq_zero]
    · rw [beq_iff_eq, Nat.cast_zero, zero_mul, mul_eq_zero, or_iff_left hpow, Nat.cast_eq_zero]
  · next hne =>
    simp only [Bool.or_eq_true, decide_eq_true_eq, not_or] at hne
    rw [Bool.and_eq_true, beq_iff_eq]
    have hcount : (c : ℚ) * 10 ^ e = c' * 10 ^ e' → _ :=
      digitCount_add_eq (Nat.pos_of_ne_zero hne.1) (Nat.pos_of_ne_zero hne.2)
    split
    · next hle =>
      rw [beq_iff_eq, show Nat.pow 10 (e' - e).toNat = 10 ^ (e' - e).toNat from rfl,
        scaled_eq_iff hle]
      exact ⟨And.right, fun h => ⟨hcount h, h⟩⟩
    · next hlt =>
      rw [beq_iff_eq, show Nat.pow 10 (e - e').toNat = 10 ^ (e - e').toNat from rfl,
        scaled_eq_iff (by omega), eq_comm (a := (c' : ℚ) * 10 ^ e')]
      exact ⟨And.right, fun h => ⟨hcount h, h⟩⟩

/-- Finite decimals are equal if they have the same value. -/
theorem numEq_iff {s s' : Bool} {c c' : ℕ} {e e' : ℤ} :
    numEq (.finite s c e) (.finite s' c' e') = true ↔ value s c e = value s' c' e' := by
  have hzero : ∀ (c : ℕ) (e : ℤ), c = 0 ↔ (c : ℚ) * 10 ^ e = 0 := fun c e => by
    rw [mul_eq_zero, or_iff_left (zpow_ne_zero e (by norm_num)), Nat.cast_eq_zero]
  have hpos : (0 : ℚ) ≤ c * 10 ^ e := by positivity
  have hpos' : (0 : ℚ) ≤ c' * 10 ^ e' := by positivity
  rw [numEq, Bool.or_eq_true, Bool.and_eq_true, Bool.and_eq_true, beq_iff_eq, beq_iff_eq,
    beq_iff_eq, sameMagnitude_iff, hzero c e, hzero c' e', value, value]
  generalize (c : ℚ) * 10 ^ e = a at hpos ⊢
  generalize (c' : ℚ) * 10 ^ e' = b at hpos' ⊢
  -- With different signs only the zeros are equal.
  have hsame : ∀ k : ℚ, k ≠ 0 → (a = 0 ∧ b = 0 ∨ a = b ↔ k * a = k * b) := fun k hk => by
    rw [mul_right_inj' hk]
    exact or_iff_right_of_imp fun h => h.1.trans h.2.symm
  cases s <;> cases s'
  · simpa using hsame 1 one_ne_zero
  · simp only [Bool.false_eq_true, false_and, or_false, if_false, if_true]
    exact ⟨fun h => by rw [h.1, h.2]; norm_num, fun h => ⟨by linarith, by linarith⟩⟩
  · simp only [Bool.true_eq_false, false_and, or_false, if_true, Bool.false_eq_true, if_false]
    exact ⟨fun h => by rw [h.1, h.2]; norm_num, fun h => ⟨by linarith, by linarith⟩⟩
  · simpa using hsame (-1) (by norm_num)

/-! ## Decimals of doubles -/

theorem reduce_value (fuel m k : ℕ) : ((ofBinary64.reduce fuel m k).1 : ℚ) /
    2 ^ (ofBinary64.reduce fuel m k).2 = m / 2 ^ k := by
  induction fuel generalizing m k with
  | zero => rfl
  | succ fuel ih =>
    rw [ofBinary64.reduce]
    split
    · next heven =>
      rw [Bool.and_eq_true, bne_iff_ne, beq_iff_eq] at heven
      obtain ⟨k, rfl⟩ := Nat.exists_eq_succ_of_ne_zero heven.1
      obtain ⟨q, rfl⟩ := Nat.dvd_of_mod_eq_zero heven.2
      rw [ih, Nat.mul_div_cancel_left q (by decide), Nat.succ_sub_one, pow_succ]
      push_cast
      field_simp
    · rfl

/-- The decimal of a double has its value. -/
theorem ofBinary64_value (s : Bool) (m : ℕ) (e : ℤ) : ∃ c u,
    ofBinary64 (.finite s m e) = .finite s c u ∧ (c : ℚ) * 10 ^ u = m * 2 ^ e := by
  rw [ofBinary64]
  split
  · next hm => exact ⟨0, 0, rfl, by rw [hm]; norm_num⟩
  · split
    · next he =>
      obtain ⟨k, rfl⟩ := Int.eq_ofNat_of_zero_le he
      exact ⟨_, _, rfl, by simp⟩
    · next he =>
      obtain ⟨k, hk⟩ := Int.eq_ofNat_of_zero_le (show 0 ≤ -e by omega)
      obtain rfl : e = -k := by omega
      have hvalue := reduce_value 1100 m (-(-(k : ℤ))).toNat
      refine ⟨(ofBinary64.reduce 1100 m (-(-(k : ℤ))).toNat).1 *
        Nat.pow 5 (ofBinary64.reduce 1100 m (-(-(k : ℤ))).toNat).2,
        -((ofBinary64.reduce 1100 m (-(-(k : ℤ))).toNat).2 : ℤ), rfl, ?_⟩
      rw [hk, Int.toNat_natCast] at hvalue ⊢
      generalize ofBinary64.reduce 1100 m k = r at hvalue ⊢
      have hten : (10 : ℚ) ^ r.2 = 2 ^ r.2 * 5 ^ r.2 := by
        rw [← mul_pow]
        norm_num
      rw [show Nat.pow 5 r.2 = 5 ^ r.2 from rfl, zpow_neg, zpow_neg, zpow_natCast, zpow_natCast,
        ← div_eq_mul_inv (m : ℚ), ← hvalue, hten]
      push_cast
      field_simp

/-- A decimal is equal to the decimal of the double that it is rounded to exactly if it is equal to
the decimal of some double. -/
theorem numEq_rounded_iff {s : Bool} {c : ℕ} {e : ℤ} :
    (ofBinary64 (ofDecimal s c e)).numEq (.finite s c e) = true ↔
      ∃ x : Binary64, x.IsProper ∧ (ofBinary64 x).numEq (.finite s c e) = true := by
  refine ⟨fun h => ⟨_, Binary64.isProper_ofDecimal s c e, h⟩, fun ⟨x, hx, h⟩ => ?_⟩
  rcases Nat.eq_zero_or_pos c with rfl | hc
  · exact numEq_iff.2 (by simp [value])
  cases x with
  | nan => cases h
  | infinite s' => cases h
  | finite s' m e' =>
    obtain ⟨c', u, hdecimal, hvalue⟩ := ofBinary64_value s' m e'
    rw [hdecimal, numEq_iff, value, value, hvalue] at h
    have hpos : (0 : ℚ) < c * 10 ^ e := mul_pos (by exact_mod_cast hc) (by positivity)
    have hpos' : (0 : ℚ) ≤ m * 2 ^ e' := by positivity
    obtain ⟨rfl, hmagnitude⟩ : s' = s ∧ (m : ℚ) * 2 ^ e' = c * 10 ^ e := by
      cases s <;> cases s' <;> simp only [if_true, if_false, Bool.false_eq_true] at h
      · exact ⟨rfl, by linarith⟩
      · linarith
      · linarith
      · exact ⟨rfl, by linarith⟩
    have hm : 0 < m := by
      rcases Nat.eq_zero_or_pos m with rfl | hm
      · rw [Nat.cast_zero, zero_mul] at hmagnitude
        exact absurd hmagnitude hpos.ne
      · exact hm
    rw [Binary64.ofDecimal_eq hm hx (hmagnitude ▸ Binary64.reaches_self m e'), hdecimal, numEq_iff,
      value, value, hvalue]
    exact h

end Hypermedia.Decimal
