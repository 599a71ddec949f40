import Mathlib.Tactic.Ring
import SlashCommands.Numeric.Binary64

/-!
# Rounding to doubles

Rounding looks at the value of a quotient only (`nearestMagnitude_mul_left`), and takes the value of
a finite double back to that double (`nearestMagnitude_units`). What is not below `2 ^ 1024` becomes
infinite (`nearestMagnitude_eq_infinity`), and a natural number never becomes a double with a
fractional part (`dvd_unitsOf_nearestMagnitude`). Rounding keeps the order (`nearestMagnitude_mono`)
and tells natural numbers apart up to `2 ^ 53` (`le_of_nearestMagnitude_eq`). The exponent of the
unit is a variable here, so that nothing computes its power.
-/

namespace SlashCommands.Binary64

/-! ## Rounding a quotient -/

theorem roundDiv_mul_left {c : Nat} (hc : 0 < c) (num den : Nat) :
    roundDiv (c * num) (c * den) = roundDiv num den := by
  have hlt : ∀ a b : Nat, c * a < c * b ↔ a < b := fun a b => Nat.mul_lt_mul_left hc
  have htwice : 2 * (c * num % (c * den)) = c * (2 * (num % den)) := by
    rw [Nat.mul_mod_mul_left]
    ring
  simp only [roundDiv, Nat.mul_div_mul_left _ _ hc, htwice, hlt]

theorem roundDiv_mul_self {den : Nat} (hd : 0 < den) (q : Nat) : roundDiv (q * den) den = q := by
  simp [roundDiv, Nat.mul_div_cancel _ hd, hd]

theorem div_le_roundDiv (num den : Nat) : num / den ≤ roundDiv num den := by
  dsimp only [roundDiv]
  split_ifs
  · exact Nat.le_refl _
  · exact Nat.le_succ _
  · exact Nat.le_add_right _ _

theorem roundDiv_le (num den : Nat) : roundDiv num den ≤ num / den + 1 := by
  dsimp only [roundDiv]
  split_ifs
  · exact Nat.le_succ _
  · exact Nat.le_refl _
  · omega

variable {k : Nat} (hk : k = 1074)
include hk

theorem nearestMagnitude_eq (num den : Nat) : nearestMagnitude num den
    = min (((num * 2 ^ k / den).log2 - 52) * 2 ^ 52
      + roundDiv (num * 2 ^ k) (den * 2 ^ ((num * 2 ^ k / den).log2 - 52))) infinity := by
  simp only [nearestMagnitude, Nat.pow_eq, ← hk]

theorem nearestMagnitude_le (num den : Nat) : nearestMagnitude num den ≤ infinity := by
  rw [nearestMagnitude_eq hk]
  exact Nat.min_le_right _ _

theorem nearestMagnitude_mul_left {c : Nat} (hc : 0 < c) (num den : Nat) :
    nearestMagnitude (c * num) (c * den) = nearestMagnitude num den := by
  simp only [nearestMagnitude_eq hk, Nat.mul_assoc, Nat.mul_div_mul_left _ _ hc,
    roundDiv_mul_left hc]

theorem nearestMagnitude_zero (den : Nat) : nearestMagnitude 0 den = 0 := by
  simp [nearestMagnitude_eq hk, roundDiv]

/-- What is less than half a unit becomes zero. -/
theorem nearestMagnitude_eq_zero {num den : Nat} (h : num * 2 ^ (k + 1) < den) :
    nearestMagnitude num den = 0 := by
  have htwice : 2 * (num * 2 ^ k) < den := by
    rw [Nat.pow_succ, ← Nat.mul_assoc] at h
    omega
  have hdiv : num * 2 ^ k / den = 0 := Nat.div_eq_of_lt (by omega)
  have hmod : num * 2 ^ k % den = num * 2 ^ k := Nat.mod_eq_of_lt (by omega)
  simp [nearestMagnitude_eq hk, roundDiv, hdiv, hmod, htwice]

/-! ## Magnitudes and units -/

omit hk in
/-- A magnitude that is not subnormal, by its significand and its exponent. -/
theorem exists_significand {m : Nat} (h : 2 ^ 52 ≤ m) :
    ∃ e s, 2 ^ 52 ≤ s ∧ s < 2 ^ 53 ∧ m = e * 2 ^ 52 + s :=
  ⟨m / 2 ^ 52 - 1, 2 ^ 52 + m % 2 ^ 52, by omega, by omega, by omega⟩

omit hk in
theorem unitsOf_subnormal {m : Nat} (h : m < 2 ^ 52) : unitsOf m = m := by
  simp only [unitsOf, Nat.pow_eq, Nat.div_eq_of_lt h, Nat.mod_eq_of_lt h, if_true]

omit hk in
theorem unitsOf_normal {e s : Nat} (hs : 2 ^ 52 ≤ s) (hs' : s < 2 ^ 53) :
    unitsOf (e * 2 ^ 52 + s) = s * 2 ^ e := by
  have hexp : (e * 2 ^ 52 + s) / 2 ^ 52 = e + 1 := by omega
  have hfrac : 2 ^ 52 + (e * 2 ^ 52 + s) % 2 ^ 52 = s := by omega
  simp only [unitsOf, Nat.pow_eq, hexp, hfrac, Nat.add_eq_zero_iff, Nat.one_ne_zero, and_false,
    if_false, Nat.add_sub_cancel]

omit hk in
theorem log2_significand {e s : Nat} (hs : 2 ^ 52 ≤ s) (hs' : s < 2 ^ 53) :
    (s * 2 ^ e).log2 = 52 + e := by
  have hpos : 0 < 2 ^ e := Nat.two_pow_pos e
  refine (Nat.log2_eq_iff (Nat.mul_ne_zero (by omega) hpos.ne')).2 ⟨?_, ?_⟩
  · rw [Nat.pow_add]
    exact Nat.mul_le_mul_right _ hs
  · rw [show 52 + e + 1 = 53 + e by omega, Nat.pow_add]
    exact Nat.mul_lt_mul_of_pos_right hs' hpos

/-- Rounding the value of a finite double gives the double. -/
theorem nearestMagnitude_units {m : Nat} (h : m < infinity) :
    nearestMagnitude (unitsOf m) (2 ^ k) = m := by
  have hunit : 0 < 2 ^ k := Nat.two_pow_pos k
  rw [nearestMagnitude_eq hk, Nat.mul_div_cancel _ hunit, Nat.mul_comm _ (2 ^ k),
    roundDiv_mul_left hunit]
  by_cases hm : m < 2 ^ 52
  · have hlog : m.log2 - 52 = 0 := by
      rcases Nat.eq_zero_or_pos m with rfl | hpos
      · simp
      · have := (Nat.log2_lt hpos.ne').2 hm
        omega
    have hround : roundDiv m (2 ^ 0) = m := by simpa using roundDiv_mul_self Nat.one_pos m
    rw [unitsOf_subnormal hm, hlog, hround, Nat.zero_mul, Nat.zero_add, Nat.min_eq_left h.le]
  · obtain ⟨e, s, hs, hs', rfl⟩ := exists_significand (Nat.le_of_not_lt hm)
    rw [unitsOf_normal hs hs', log2_significand hs hs', Nat.add_sub_cancel_left,
      roundDiv_mul_self (Nat.two_pow_pos e), Nat.min_eq_left h.le]

/-! ## Large and whole values -/

/-- A value of so many units has a magnitude with an exponent above theirs. -/
theorem le_nearestMagnitude {num den j : Nat} (hd : 0 < den)
    (h : 2 ^ (52 + j) * den ≤ num * 2 ^ k) :
    min ((j + 1) * 2 ^ 52) infinity ≤ nearestMagnitude num den := by
  rw [nearestMagnitude_eq hk]
  generalize num * 2 ^ k = scaled at h
  have hq : 2 ^ (52 + j) ≤ scaled / den := (Nat.le_div_iff_mul_le hd).2 h
  have hq0 : scaled / den ≠ 0 := by
    have := Nat.two_pow_pos (52 + j)
    omega
  have hlog : 52 + j ≤ (scaled / den).log2 := (Nat.le_log2 hq0).2 hq
  obtain ⟨e, he⟩ := Nat.exists_eq_add_of_le (Nat.le_trans (Nat.le_add_right 52 j) hlog)
  have hround : 2 ^ 52 ≤ roundDiv scaled (den * 2 ^ e) := by
    refine Nat.le_trans ?_ (div_le_roundDiv _ _)
    rw [← Nat.div_div_eq_div_mul, Nat.le_div_iff_mul_le (Nat.two_pow_pos e), ← Nat.pow_add, ← he]
    exact Nat.log2_self_le hq0
  rw [he, Nat.add_sub_cancel_left]
  refine le_min_iff.2 ⟨Nat.le_trans (Nat.min_le_left _ _) ?_, Nat.min_le_right _ _⟩
  have hje : j ≤ e := Nat.le_of_add_le_add_left (he ▸ hlog)
  rw [Nat.succ_mul]
  exact Nat.add_le_add (Nat.mul_le_mul_right _ hje) hround

/-- From `2 ^ 1024` on everything is infinite. -/
theorem nearestMagnitude_eq_infinity {num den l : Nat} (hl : l = 1024) (hd : 0 < den)
    (h : 2 ^ l * den ≤ num) : nearestMagnitude num den = infinity := by
  obtain ⟨j, hj⟩ : ∃ j, j = 2046 := ⟨_, rfl⟩
  have hscaled : 2 ^ (52 + j) * den ≤ num * 2 ^ k := by
    rw [show 52 + j = l + k by omega, Nat.pow_add, Nat.mul_right_comm]
    exact Nat.mul_le_mul_right _ h
  have hinf : infinity ≤ (j + 1) * 2 ^ 52 := by
    rw [infinity, Nat.pow_eq]
    omega
  have hle := le_nearestMagnitude hk hd hscaled
  rw [Nat.min_eq_right hinf] at hle
  exact Nat.le_antisymm (nearestMagnitude_le hk _ _) hle

/-- A value of fewer units than that has a magnitude with an exponent below. -/
theorem nearestMagnitude_le_of_lt {num den j : Nat} (h : num * 2 ^ k < 2 ^ (53 + j) * den) :
    nearestMagnitude num den ≤ j * 2 ^ 52 + 2 ^ 53 := by
  rw [nearestMagnitude_eq hk]
  generalize num * 2 ^ k = scaled at h
  have hq : scaled / den < 2 ^ (53 + j) := Nat.div_lt_of_lt_mul (Nat.mul_comm _ den ▸ h)
  have hlog : (scaled / den).log2 - 52 ≤ j := by
    rcases Nat.eq_zero_or_pos (scaled / den) with hq0 | hq0
    · simp [hq0]
    · have := (Nat.log2_lt hq0.ne').2 hq
      omega
  generalize he : (scaled / den).log2 - 52 = e at hlog
  have hround : roundDiv scaled (den * 2 ^ e) ≤ 2 ^ 53 := by
    refine Nat.le_trans (roundDiv_le _ _) ?_
    rw [← Nat.div_div_eq_div_mul]
    refine Nat.div_lt_of_lt_mul (Nat.lt_of_lt_of_le Nat.lt_log2_self ?_)
    rw [← Nat.pow_add]
    exact Nat.pow_le_pow_right (by decide) (by omega)
  exact Nat.le_trans (Nat.min_le_left _ _) (Nat.add_le_add (Nat.mul_le_mul_right _ hlog) hround)

/-- What fits 64 bits is finite. -/
theorem nearestMagnitude_lt_infinity {n : Nat} (h : n < 2 ^ 64) :
    nearestMagnitude n 1 < infinity := by
  obtain ⟨j, hj⟩ : ∃ j, j = 11 + k := ⟨_, rfl⟩
  have hscaled : n * 2 ^ k < 2 ^ (53 + j) * 1 := by
    rw [hj, Nat.mul_one, ← Nat.add_assoc, Nat.pow_add]
    exact Nat.mul_lt_mul_of_pos_right h (Nat.two_pow_pos k)
  refine Nat.lt_of_le_of_lt (nearestMagnitude_le_of_lt hk hscaled) ?_
  rw [infinity, Nat.pow_eq]
  omega

/-! ## Small natural numbers -/

/-- Up to `2 ^ 53`, a natural number is a significand with some zeros behind it or none. -/
theorem exists_scaled_significand {n : Nat} (hpos : 0 < n) (h : n ≤ 2 ^ 53) :
    ∃ e s, 2 ^ 52 ≤ s ∧ s < 2 ^ 53 ∧ e ≤ k + 1 ∧ n * 2 ^ k = s * 2 ^ e := by
  rcases Nat.lt_or_eq_of_le h with h | rfl
  · have hlog : n.log2 < 53 := (Nat.log2_lt hpos.ne').2 h
    obtain ⟨z, hz⟩ := Nat.exists_eq_add_of_le (Nat.le_of_lt_succ hlog)
    obtain ⟨e, he⟩ : ∃ e, k = z + e := Nat.exists_eq_add_of_le (by omega)
    refine ⟨e, n * 2 ^ z, ?_, ?_, by omega, by rw [he, Nat.pow_add, Nat.mul_assoc]⟩
    · rw [hz, Nat.pow_add]
      exact Nat.mul_le_mul_right _ (Nat.log2_self_le hpos.ne')
    · rw [show 53 = n.log2 + 1 + z by omega, Nat.pow_add]
      exact Nat.mul_lt_mul_of_pos_right Nat.lt_log2_self (Nat.two_pow_pos z)
  · exact ⟨k + 1, 2 ^ 52, Nat.le_refl _, by decide, Nat.le_refl _, by ring⟩

/-- Up to `2 ^ 53`, a natural number is a double. -/
theorem unitsOf_nearestMagnitude {n : Nat} (h : n ≤ 2 ^ 53) :
    unitsOf (nearestMagnitude n 1) = n * 2 ^ k := by
  rcases Nat.eq_zero_or_pos n with rfl | hpos
  · rw [nearestMagnitude_zero hk]
    simp [unitsOf]
  · obtain ⟨e, s, hs, hs', he, hscaled⟩ := exists_scaled_significand hk hpos h
    have hmin : e * 2 ^ 52 + s ≤ infinity := by
      rw [infinity, Nat.pow_eq]
      omega
    rw [nearestMagnitude_eq hk, Nat.div_one, hscaled, log2_significand hs hs',
      Nat.add_sub_cancel_left, Nat.one_mul, roundDiv_mul_self (Nat.two_pow_pos e),
      Nat.min_eq_left hmin, unitsOf_normal hs hs']

theorem dvd_unitsOf {m : Nat} (h : 1075 * 2 ^ 52 ≤ m) : 2 ^ k ∣ unitsOf m := by
  have hm : 2 ^ 52 ≤ m := by omega
  obtain ⟨e, s, hs, hs', rfl⟩ := exists_significand hm
  rw [unitsOf_normal hs hs']
  exact Nat.dvd_mul_left_of_dvd (Nat.pow_dvd_pow 2 (by omega)) s

/-- A natural number becomes a double without a fractional part. -/
theorem dvd_unitsOf_nearestMagnitude (n : Nat) : 2 ^ k ∣ unitsOf (nearestMagnitude n 1) := by
  by_cases hn : 2 ^ 52 ≤ n
  · have hscaled : 2 ^ (52 + k) * 1 ≤ n * 2 ^ k := by
      rw [Nat.mul_one, Nat.pow_add]
      exact Nat.mul_le_mul_right _ hn
    have hle := le_nearestMagnitude hk Nat.one_pos hscaled
    have hinf : (k + 1) * 2 ^ 52 ≤ infinity := by
      rw [infinity, Nat.pow_eq]
      omega
    rw [Nat.min_eq_left hinf, hk] at hle
    exact dvd_unitsOf hk hle
  · rw [unitsOf_nearestMagnitude hk (by omega)]
    exact Nat.dvd_mul_left _ _

/-! ## Order -/

omit hk in
theorem roundDiv_mono {a b : Nat} (h : a ≤ b) (den : Nat) : roundDiv a den ≤ roundDiv b den := by
  rcases Nat.lt_or_eq_of_le (Nat.div_le_div_right (c := den) h) with hlt | heq
  · exact Nat.le_trans (roundDiv_le a den) (Nat.le_trans hlt (div_le_roundDiv b den))
  · have hmod : a % den ≤ b % den := by
      have ha := Nat.div_add_mod a den
      have hb := Nat.div_add_mod b den
      rw [heq] at ha
      omega
    dsimp only [roundDiv]
    rw [heq]
    split_ifs <;> omega

omit hk in
theorem log2_mono {a b : Nat} (h : a ≤ b) : a.log2 ≤ b.log2 := by
  rcases Nat.eq_zero_or_pos a with rfl | hpos
  · simp
  · exact (Nat.le_log2 (by omega)).2 (Nat.le_trans (Nat.log2_self_le hpos.ne') h)

/-- Rounding keeps the order, also where the exponent changes. -/
theorem nearestMagnitude_mono {a b den : Nat} (hd : 0 < den) (h : a ≤ b) :
    nearestMagnitude a den ≤ nearestMagnitude b den := by
  have hscaled : a * 2 ^ k ≤ b * 2 ^ k := Nat.mul_le_mul_right _ h
  have hlog := log2_mono (Nat.div_le_div_right (c := den) hscaled)
  rcases Nat.lt_or_eq_of_le (Nat.sub_le_sub_right hlog 52) with hlt | heq
  · have ha : a * 2 ^ k < 2 ^ (53 + ((a * 2 ^ k / den).log2 - 52)) * den := by
      refine (Nat.div_lt_iff_lt_mul hd).1 (Nat.lt_of_lt_of_le Nat.lt_log2_self ?_)
      exact Nat.pow_le_pow_right (by decide) (by omega)
    have hb : 2 ^ (52 + ((b * 2 ^ k / den).log2 - 52)) * den ≤ b * 2 ^ k := by
      refine (Nat.le_div_iff_mul_le hd).1 (Nat.le_trans ?_ (Nat.log2_self_le ?_))
      · exact Nat.pow_le_pow_right (by decide) (by omega)
      · intro hzero
        simp [hzero] at hlt
    have hhigh := nearestMagnitude_le_of_lt hk ha
    refine Nat.le_trans (Nat.le_min.2 ⟨?_, nearestMagnitude_le hk a den⟩)
      (le_nearestMagnitude hk hd hb)
    omega
  · rw [nearestMagnitude_eq hk, nearestMagnitude_eq hk, heq]
    refine Nat.le_min.2 ⟨?_, Nat.min_le_right _ _⟩
    exact Nat.le_trans (Nat.min_le_left _ _) (Nat.add_le_add_left (roundDiv_mono hscaled _) _)

/-- Two natural numbers become one double only beyond `2 ^ 53`. -/
theorem le_of_nearestMagnitude_eq {m n : Nat} (hlt : m < n)
    (h : nearestMagnitude m 1 = nearestMagnitude n 1) : 2 ^ 53 ≤ m := by
  by_contra hm
  have hnext : nearestMagnitude (m + 1) 1 ≤ nearestMagnitude m 1 := by
    rw [h]
    exact nearestMagnitude_mono hk Nat.one_pos hlt
  have hunits := congrArg unitsOf
    (Nat.le_antisymm hnext (nearestMagnitude_mono hk Nat.one_pos (Nat.le_succ m)))
  rw [unitsOf_nearestMagnitude hk (by omega), unitsOf_nearestMagnitude hk (by omega)] at hunits
  have := Nat.eq_of_mul_eq_mul_right (Nat.two_pow_pos k) hunits
  omega

end SlashCommands.Binary64
