import Hypermedia.Number.Shortest
import Hypermedia.Proofs.Number.Rounding

/-!
# The shortest decimal is read back

The interval that is searched for a short decimal holds just what is rounded to the double
(`Binary64.contains_interval_iff`). The grid of twenty digits is finer than the interval, so the
search finds a decimal (`Binary64.onGrid?_isSome`, `Binary64.shortestFrom_reaches`), and what it
finds is rounded to the double again (`Binary64.ofDecimal_shortest`).
-/

namespace Hypermedia.Binary64

/-! ## The interval -/

/-- The parts of the interval of `m · 2^e` are quarters of `2^e`. -/
theorem interval_eq (m : ℕ) (e : ℤ) : ∃ scale : ℕ, 0 < scale ∧ 0 < (interval m e).den ∧
    (scale : ℚ) / (interval m e).den = 2 ^ e / 4 ∧
    (interval m e).low = (4 * m - gapBelow m e) * scale ∧ (interval m e).value = 4 * m * scale ∧
    (interval m e).high = (4 * m + 2) * scale ∧ (interval m e).closed = (m % 2 == 0) := by
  have hquarter : (2 : ℚ) ^ e / 4 = 2 ^ (e - 2) := by
    rw [zpow_sub₀ two_ne_zero]
    norm_num
  rw [hquarter]
  by_cases he : 0 ≤ e - 2
  · obtain ⟨k, hk⟩ := Int.eq_ofNat_of_zero_le he
    refine ⟨2 ^ k, Nat.pow_pos (by decide), ?_⟩
    simp [interval, hk, gapBelow]
  · obtain ⟨k, hk⟩ := Int.eq_ofNat_of_zero_le (show 0 ≤ -(e - 2) by omega)
    refine ⟨1, one_pos, ?_⟩
    have hlow : ¬2 ≤ e := by omega
    rw [show e - 2 = -(k : ℤ) by omega]
    simp [interval, hlow, hk, gapBelow]

theorem gapBelow_pos (m : ℕ) (e : ℤ) : 0 < gapBelow m e := by
  unfold gapBelow
  split <;> decide

theorem interval_value (m : ℕ) (e : ℤ) :
    ((interval m e).value : ℚ) / (interval m e).den = m * 2 ^ e := by
  obtain ⟨scale, -, -, hscale, -, hvalue, -⟩ := interval_eq m e
  rw [hvalue, Nat.cast_mul, mul_div_assoc, hscale]
  push_cast
  ring

theorem reaches_iff {x : ℚ} {m : ℕ} {e : ℤ} : Reaches x m e ↔
    if m % 2 = 0 then ((m : ℚ) - gapBelow m e / 4) * 2 ^ e ≤ x ∧ x ≤ ((m : ℚ) + 1 / 2) * 2 ^ e
    else ((m : ℚ) - gapBelow m e / 4) * 2 ^ e < x ∧ x < ((m : ℚ) + 1 / 2) * 2 ^ e := by
  split
  · next heven => exact ⟨fun h => ⟨h.low, h.high⟩, fun h => ⟨h.1, h.2, fun _ => heven⟩⟩
  · next hodd =>
    refine ⟨fun h => ⟨?_, ?_⟩, fun h => ⟨h.1.le, h.2.le, ?_⟩⟩
    · exact lt_of_le_of_ne h.low fun heq => hodd (h.even (.inl heq.symm))
    · exact lt_of_le_of_ne h.high fun heq => hodd (h.even (.inr heq))
    · exact fun htie => absurd htie (not_or.2 ⟨h.1.ne', h.2.ne⟩)

/-- The interval holds what is rounded to the double. -/
theorem contains_interval_iff {m : ℕ} (hm : 0 < m) (e : ℤ) {n d : ℕ} (hd : 0 < d) :
    (interval m e).contains n d = true ↔ Reaches (n / d) m e := by
  obtain ⟨scale, -, hden, hscale, hlow, -, hhigh, hclosed⟩ := interval_eq m e
  have hdq : (0 : ℚ) < d := by exact_mod_cast hd
  have hdenq : (0 : ℚ) < (interval m e).den := by exact_mod_cast hden
  have hgap : gapBelow m e ≤ 4 * m := by
    unfold gapBelow
    split <;> omega
  have hlowq : ((interval m e).low : ℚ) / (interval m e).den =
      ((m : ℚ) - gapBelow m e / 4) * 2 ^ e := by
    rw [hlow, Nat.cast_mul, Nat.cast_sub hgap, mul_div_assoc, hscale]
    push_cast
    ring
  have hhighq : ((interval m e).high : ℚ) / (interval m e).den = ((m : ℚ) + 1 / 2) * 2 ^ e := by
    rw [hhigh, Nat.cast_mul, mul_div_assoc, hscale]
    push_cast
    ring
  have hle {a b c d : ℕ} (hb : (0 : ℚ) < b) (hd : (0 : ℚ) < d) :
      a * d ≤ c * b ↔ (a : ℚ) / b ≤ c / d := by
    rw [div_le_div_iff₀ hb hd]
    exact_mod_cast Iff.rfl
  have hlt {a b c d : ℕ} (hb : (0 : ℚ) < b) (hd : (0 : ℚ) < d) :
      a * d < c * b ↔ (a : ℚ) / b < c / d := by
    rw [← not_le, ← not_le, hle hd hb]
  rw [Interval.contains, hclosed, reaches_iff, ← hlowq, ← hhighq]
  by_cases heven : m % 2 = 0
  · simp [heven, hle hdenq hdq, hle hdq hdenq]
  · simp [heven, hlt hdenq hdq, hlt hdq hdenq]

/-! ## Powers of ten -/

theorem powerOfTen_pos (k : ℤ) : 0 < (powerOfTen k).1 ∧ 0 < (powerOfTen k).2 := by
  unfold powerOfTen
  split <;> simp

theorem powerOfTen_ratio (k : ℤ) :
    ((powerOfTen k).1 : ℚ) / (powerOfTen k).2 = 10 ^ k := by
  unfold powerOfTen
  split
  · next hk =>
    obtain ⟨n, rfl⟩ := Int.eq_ofNat_of_zero_le hk
    simp
  · next hk =>
    obtain ⟨n, hn⟩ := Int.eq_ofNat_of_zero_le (show 0 ≤ -k by omega)
    obtain rfl : k = -n := by omega
    simp

/-! ## Decimal grids -/

variable {m : ℕ} {e : ℤ}

theorem contains_grid_iff (hm : 0 < m) (unit : ℤ) (d : ℕ) :
    (interval m e).contains (d * (powerOfTen unit).1) (powerOfTen unit).2 = true ↔
      Reaches (d * 10 ^ unit) m e := by
  rw [contains_interval_iff hm e (powerOfTen_pos unit).2, Nat.cast_mul, mul_div_assoc,
    powerOfTen_ratio]

/-- What is found on a grid is rounded to the double. -/
theorem onGrid?_reaches (hm : 0 < m) {unit : ℤ} {d : ℕ}
    (h : onGrid? (interval m e) unit = some d) : 0 < d ∧ Reaches (d * 10 ^ unit) m e := by
  rw [← contains_grid_iff hm]
  unfold onGrid? at h
  dsimp only at h
  generalize (interval m e).value * _ / _ = below at h
  have hbelow : (below != 0 && (interval m e).contains (below * (powerOfTen unit).1)
      (powerOfTen unit).2) = true → 0 < below ∧
      (interval m e).contains (below * (powerOfTen unit).1) (powerOfTen unit).2 = true := by
    intro hit
    rw [Bool.and_eq_true, bne_iff_ne] at hit
    exact ⟨Nat.pos_of_ne_zero hit.1, hit.2⟩
  split at h
  · next hboth =>
    rw [Bool.and_eq_true] at hboth
    split at h
    · cases h
      exact hbelow hboth.1
    · split at h
      · cases h
        exact ⟨Nat.succ_pos _, hboth.2⟩
      · cases h
        split
        · exact hbelow hboth.1
        · exact ⟨Nat.succ_pos _, hboth.2⟩
  · split at h
    · next hit =>
      cases h
      exact hbelow hit
    · split at h
      · next hit =>
        cases h
        exact ⟨Nat.succ_pos _, hit⟩
      · cases h

/-- The point of a grid below the value of a double is within a unit of it. -/
theorem grid_bounds (m : ℕ) (e unit : ℤ) :
    let below := (interval m e).value * (powerOfTen unit).2 /
      ((interval m e).den * (powerOfTen unit).1)
    (below : ℚ) * 10 ^ unit ≤ m * 2 ^ e ∧ (m : ℚ) * 2 ^ e < below * 10 ^ unit + 10 ^ unit := by
  intro below
  obtain ⟨hp, hq⟩ := powerOfTen_pos unit
  obtain ⟨-, -, hden, -⟩ := interval_eq m e
  have hpos : 0 < (interval m e).den * (powerOfTen unit).1 := Nat.mul_pos hden hp
  have hdenq : (0 : ℚ) < (interval m e).den := by exact_mod_cast hden
  have hqq : (0 : ℚ) < (powerOfTen unit).2 := by exact_mod_cast hq
  have hlow : below * ((interval m e).den * (powerOfTen unit).1) ≤
      (interval m e).value * (powerOfTen unit).2 := Nat.div_mul_le_self _ _
  have hhigh : (interval m e).value * (powerOfTen unit).2 <
      (below + 1) * ((interval m e).den * (powerOfTen unit).1) := by
    rw [Nat.add_mul, Nat.one_mul, Nat.mul_comm below]
    exact Nat.lt_mul_div_succ _ hpos
  rw [← interval_value, ← powerOfTen_ratio, ← add_one_mul, ← mul_div_assoc, ← mul_div_assoc,
    div_le_div_iff₀ hqq hdenq, div_lt_div_iff₀ hdenq hqq]
  constructor
  · have hlowq : (below : ℚ) * ((interval m e).den * (powerOfTen unit).1) ≤
        (interval m e).value * (powerOfTen unit).2 := by exact_mod_cast hlow
    linarith
  · have hhighq : ((interval m e).value : ℚ) * (powerOfTen unit).2 <
        (below + 1) * ((interval m e).den * (powerOfTen unit).1) := by exact_mod_cast hhigh
    linarith

/-- On a grid as fine as half the gap below the double there is something to be found. -/
theorem onGrid?_isSome (hm : 0 < m) {unit : ℤ}
    (h : (10 : ℚ) ^ unit ≤ gapBelow m e / 4 * 2 ^ e) :
    (onGrid? (interval m e) unit).isSome = true := by
  have hpow : (0 : ℚ) < 2 ^ e := by positivity
  have hmq : (1 : ℚ) ≤ m := by exact_mod_cast hm
  have hgap := gapBelow_le m e
  have hbounds := grid_bounds m e unit
  unfold onGrid?
  dsimp only at hbounds ⊢
  generalize (interval m e).value * _ / _ = below at hbounds ⊢
  obtain ⟨hlow, hhigh⟩ := hbounds
  have hhalf : (gapBelow m e : ℚ) / 4 * 2 ^ e ≤ 1 / 2 * 2 ^ e :=
    mul_le_mul_of_nonneg_right (by linarith) hpow.le
  have hvalue : 1 * (2 : ℚ) ^ e ≤ m * 2 ^ e := mul_le_mul_of_nonneg_right hmq hpow.le
  have hne : (below != 0) = true := by
    rw [bne_iff_ne]
    rintro rfl
    rw [Nat.cast_zero] at hhigh
    linarith
  have hreach : Reaches (below * 10 ^ unit) m e := by
    refine ⟨?_, ?_, fun htie => ?_⟩
    · linarith
    · linarith
    · rcases htie with htie | htie <;> linarith
  rw [hne, (contains_grid_iff hm unit below).2 hreach]
  split
  · split
    · rfl
    · split <;> rfl
  · rfl

/-! ## The number of digits before the point -/

/-- A power of ten is below a power of two if a power of ten bounds a power of two suitably. -/
theorem ten_zpow_le_two_zpow {p q : ℕ} (hq : q ≠ 0) {t u : ℤ} (hu : u * q ≤ p * t)
    (h : 10 ^ p ≤ 2 ^ q ∧ 0 ≤ t ∨ 2 ^ q ≤ 10 ^ p ∧ t ≤ 0) : (10 : ℚ) ^ u ≤ 2 ^ t := by
  have hpowers : ((10 : ℚ) ^ p) ^ t ≤ (2 ^ q) ^ t := by
    rcases h with ⟨hle, hpos⟩ | ⟨hle, hneg⟩
    · obtain ⟨k, rfl⟩ := Int.eq_ofNat_of_zero_le hpos
      rw [zpow_natCast, zpow_natCast]
      exact pow_le_pow_left₀ (by positivity) (by exact_mod_cast hle) k
    · obtain ⟨k, hk⟩ := Int.eq_ofNat_of_zero_le (show 0 ≤ -t by omega)
      obtain rfl : t = -k := by omega
      rw [zpow_neg, zpow_neg, zpow_natCast, zpow_natCast]
      exact inv_anti₀ (by positivity) (pow_le_pow_left₀ (by positivity) (by exact_mod_cast hle) k)
  refine (pow_le_pow_iff_left₀ (by positivity) (by positivity) hq).1 ?_
  calc ((10 : ℚ) ^ u) ^ q = 10 ^ (u * q) := by rw [zpow_mul, zpow_natCast]
    _ ≤ 10 ^ (p * t) := zpow_le_zpow_right₀ (by norm_num) hu
    _ = (10 ^ p) ^ t := by rw [zpow_mul, zpow_natCast]
    _ ≤ (2 ^ q) ^ t := hpowers
    _ = (2 ^ t) ^ q := by rw [← zpow_natCast, ← zpow_natCast, ← zpow_mul, ← zpow_mul, mul_comm]

/-- The guess of the power of ten below a power of two is not too high. -/
theorem ten_zpow_guess_le {t : ℤ} (ht : -8192 ≤ t) :
    (10 : ℚ) ^ (t * 1233 / 4096 - 2) ≤ 2 ^ t := by
  rcases le_total 0 t with hpos | hneg
  · exact ten_zpow_le_two_zpow (p := 1233) (q := 4096) (by decide) (by omega)
      (.inl ⟨by decide +kernel, hpos⟩)
  · exact ten_zpow_le_two_zpow (p := 1234) (q := 4096) (by decide) (by omega)
      (.inr ⟨by decide +kernel, hneg⟩)

theorem magnitudeFrom_le {num den : ℕ} (hden : 0 < den) : ∀ (fuel : ℕ) {k : ℤ},
    (10 : ℚ) ^ (k - 1) ≤ num / den → (10 : ℚ) ^ (magnitudeFrom num den fuel k - 1) ≤ num / den
  | 0, _, h => h
  | fuel + 1, k, h => by
    rw [magnitudeFrom]
    dsimp only
    split
    · exact h
    · next hge =>
      refine magnitudeFrom_le hden fuel ?_
      have hdenq : (0 : ℚ) < den := by exact_mod_cast hden
      have hq : (0 : ℚ) < (powerOfTen k).2 := by exact_mod_cast (powerOfTen_pos k).2
      rw [add_sub_cancel_right, ← powerOfTen_ratio, div_le_div_iff₀ hq hdenq]
      exact_mod_cast Nat.not_lt.1 hge

theorem log2_den_le (m : ℕ) {e : ℤ} (he : minExponent ≤ e) :
    (interval m e).den.log2 ≤ 1076 := by
  have hmin : minExponent = -1074 := rfl
  unfold interval
  dsimp only
  split
  · exact (by decide : Nat.log2 1 ≤ 1076)
  · rw [show Nat.pow 2 (-(e - 2)).toNat = 2 ^ (-(e - 2)).toNat from rfl, Nat.log2_two_pow]
    omega

/-- The number has at least as many digits before the point as are found. -/
theorem ten_zpow_magnitude_le (hm : 0 < m) (he : minExponent ≤ e) :
    (10 : ℚ) ^ (magnitude (interval m e).value (interval m e).den - 1) ≤ m * 2 ^ e := by
  obtain ⟨scale, hscale, hden, -, -, hvalue, -⟩ := interval_eq m e
  have hpos : 0 < (interval m e).value := hvalue ▸ Nat.mul_pos (by omega) hscale
  have hlog := log2_den_le m he
  rw [← interval_value]
  refine magnitudeFrom_le hden 8 ?_
  refine le_trans ?_ (two_zpow_log2_le hpos hden)
  have hguess := ten_zpow_guess_le
    (t := ((interval m e).value.log2 : ℤ) - (interval m e).den.log2 - 1) (by omega)
  rwa [show ∀ g : ℤ, g - 1 - 1 = g - 2 by intro g; ring]

/-! ## The search -/

theorem shortestFrom_reaches (hm : 0 < m) {k : ℤ} : ∀ (fuel n j : ℕ), j < fuel →
    (onGrid? (interval m e) (k - (n + j : ℕ))).isSome = true →
    0 < (shortestFrom (interval m e) k fuel n).1 ∧
      Reaches ((shortestFrom (interval m e) k fuel n).1 *
        10 ^ (shortestFrom (interval m e) k fuel n).2) m e
  | 0, _, _, hj, _ => absurd hj (Nat.not_lt_zero _)
  | fuel + 1, n, j, hj, hsome => by
    rw [shortestFrom]
    cases hgrid : onGrid? (interval m e) (k - n) with
    | some d => exact onGrid?_reaches hm hgrid
    | none =>
      cases j with
      | zero =>
        rw [Nat.add_zero, hgrid] at hsome
        cases hsome
      | succ j =>
        refine shortestFrom_reaches hm fuel (n + 1) j (Nat.lt_of_succ_lt_succ hj) ?_
        rwa [Nat.add_right_comm n 1 j]

/-- Zeros at the end count for the exponent. -/
theorem dropZeros_value : ∀ (fuel d : ℕ) (u : ℤ), 0 < d →
    0 < (dropZeros fuel d u).1 ∧
      ((dropZeros fuel d u).1 : ℚ) * 10 ^ (dropZeros fuel d u).2 = d * 10 ^ u
  | 0, _, _, hd => ⟨hd, rfl⟩
  | fuel + 1, d, u, hd => by
    rw [dropZeros]
    split
    · next hzero =>
      rw [Bool.and_eq_true, bne_iff_ne, beq_iff_eq] at hzero
      obtain ⟨q, rfl⟩ := Nat.dvd_of_mod_eq_zero hzero.2
      rw [Nat.mul_div_cancel_left q (by decide)]
      obtain ⟨hpos, hvalue⟩ := dropZeros_value fuel q (u + 1) (by omega)
      refine ⟨hpos, hvalue.trans ?_⟩
      rw [zpow_add_one₀ (by norm_num)]
      push_cast
      ring
    · exact ⟨hd, rfl⟩

/-- The shortest decimal of a double is not zero and is rounded to the double. -/
theorem shortest_reaches (hm : 0 < m) (hfits : Fits m e) :
    0 < (shortest m e).1 ∧ Reaches ((shortest m e).1 * 10 ^ (shortest m e).2) m e := by
  have hfine : (10 : ℚ) ^ (magnitude (interval m e).value (interval m e).den - (1 + 19 : ℕ)) ≤
      gapBelow m e / 4 * 2 ^ e := by
    have hlow := ten_zpow_magnitude_le hm hfits.low
    have hpow : (0 : ℚ) < 2 ^ e := by positivity
    have hgap : (1 : ℚ) ≤ gapBelow m e := by exact_mod_cast gapBelow_pos m e
    have hmax : (m : ℚ) ≤ 2 ^ 53 := by exact_mod_cast hfits.mantissa.le
    generalize magnitude (interval m e).value (interval m e).den = k at hlow
    calc (10 : ℚ) ^ (k - (1 + 19 : ℕ)) = 10 ^ (k - 1) * 10 ^ (-19 : ℤ) := by
          rw [← zpow_add₀ (by norm_num)]
          congr 1
          push_cast
          ring
      _ ≤ 2 ^ 53 * 2 ^ e * 10 ^ (-19 : ℤ) :=
          mul_le_mul_of_nonneg_right (hlow.trans (mul_le_mul_of_nonneg_right hmax hpow.le))
            (by positivity)
      _ ≤ 1 / 4 * 2 ^ e := by
          have hsmall : (2 : ℚ) ^ 53 * 10 ^ (-19 : ℤ) ≤ 1 / 4 := by norm_num
          calc (2 : ℚ) ^ 53 * 2 ^ e * 10 ^ (-19 : ℤ) = 2 ^ 53 * 10 ^ (-19 : ℤ) * 2 ^ e := by ring
            _ ≤ 1 / 4 * 2 ^ e := mul_le_mul_of_nonneg_right hsmall hpow.le
      _ ≤ gapBelow m e / 4 * 2 ^ e := mul_le_mul_of_nonneg_right (by linarith) hpow.le
  obtain ⟨hpos, hreach⟩ := shortestFrom_reaches hm 20 1 19 (by decide) (onGrid?_isSome hm hfine)
  obtain ⟨hpos', hvalue⟩ := dropZeros_value 20 _
    (shortestFrom (interval m e) (magnitude (interval m e).value (interval m e).den) 20 1).2 hpos
  rw [shortest, if_neg hm.ne']
  exact ⟨hpos', hvalue ▸ hreach⟩

theorem ofDecimal_shortest (s : Bool) (hm : 0 < m) (hfits : Fits m e) :
    ofDecimal s (shortest m e).1 (shortest m e).2 = .finite s m e :=
  ofDecimal_eq hm hfits (shortest_reaches hm hfits).2

end Hypermedia.Binary64
