import NNIS.Numeric.Quotient
import NNIS.Numeric.Rounding

/-!
# Small multiples of a word

The products of a positive word with the small integers are different words as long as they are
finite: the integers are further apart than the rounding of their products moves them.

## Main definitions

* `Binary.ofInt` — the word nearest to an integer.

## Main results

* `Format.round_lt_round` — fractions that are far enough apart are rounded to different patterns.
* `Binary.eq_of_mul_eq` — small integers with the same finite product are equal.
-/

set_option autoImplicit false

namespace NNIS

namespace Format

variable {fmt : Format}

theorem units_of_lt {p : ℕ} (hp : p < 2 ^ fmt.fractionBits) : fmt.units p = p := if_pos hp

/-- The distance of consecutive patterns. -/
theorem units_succ_eq (p : ℕ) :
    fmt.units (p + 1) = fmt.units p + 2 ^ (p / 2 ^ fmt.fractionBits - 1) := by
  rcases Nat.lt_or_ge p (2 ^ fmt.fractionBits) with hlt | hge
  · rw [Nat.div_eq_of_lt hlt, units_of_lt hlt, Nat.zero_sub, Nat.pow_zero]
    rcases Nat.lt_or_ge (p + 1) (2 ^ fmt.fractionBits) with hlt' | hge'
    · exact units_of_lt hlt'
    · have hstart := units_start fmt 0
      rw [Nat.zero_add, Nat.one_mul, Nat.add_zero] at hstart
      rw [(by omega : p + 1 = 2 ^ fmt.fractionBits), hstart]
  · exact units_succ hge

/-- Two patterns further, the value has grown by at most two, or by at most a small part of it. -/
theorem units_add_two_le (p : ℕ) (hfraction : 2 ≤ fmt.fractionBits) :
    fmt.units (p + 2) ≤ fmt.units p + 2 ∨
      fmt.units (p + 2) ≤ fmt.units p + fmt.units p / 2 ^ (fmt.fractionBits - 2) := by
  have hF0 : 0 < 2 ^ fmt.fractionBits := Nat.two_pow_pos _
  rw [units_succ_eq (p + 1), units_succ_eq p]
  rcases Nat.lt_or_ge p (2 ^ fmt.fractionBits) with hlt | hge
  · refine .inl ?_
    have hdiv : (p + 1) / 2 ^ fmt.fractionBits ≤ 1 :=
      Nat.div_le_of_le_mul (by rw [Nat.mul_one]; omega)
    rw [Nat.div_eq_of_lt hlt, Nat.zero_sub, Nat.sub_eq_zero_of_le hdiv, Nat.pow_zero]
  · refine .inr ?_
    obtain ⟨q, hq⟩ : ∃ q, p / 2 ^ fmt.fractionBits = q + 1 :=
      Nat.exists_eq_succ_of_ne_zero (Nat.ne_of_gt (Nat.div_pos hge hF0))
    have hnext : (p + 1) / 2 ^ fmt.fractionBits ≤ q + 2 := by
      refine (Nat.div_le_div_right (?_ : p + 1 ≤ p + 2 ^ fmt.fractionBits)).trans ?_
      · omega
      · rw [Nat.add_div_right _ hF0, hq]
    have hpow : 2 ^ ((p + 1) / 2 ^ fmt.fractionBits - 1) ≤ 2 * 2 ^ q := by
      rw [← Nat.pow_succ']
      exact Nat.pow_le_pow_right Nat.two_pos (by omega)
    -- The value fills its block, so that its small part is four times the distance in the block.
    have hvalue : 2 ^ (fmt.fractionBits + q) ≤ fmt.units p := by
      rw [← units_start]
      refine units_mono ?_
      rw [← hq]
      exact Nat.div_mul_le_self p _
    have hpart : 4 * 2 ^ q ≤ fmt.units p / 2 ^ (fmt.fractionBits - 2) := by
      rw [Nat.le_div_iff_mul_le (Nat.two_pow_pos _)]
      refine Nat.le_trans (Nat.le_of_eq ?_) hvalue
      rw [show (4 : ℕ) = 2 ^ 2 from rfl, ← Nat.pow_add, ← Nat.pow_add]
      congr 1
      omega
    rw [hq, Nat.add_sub_cancel]
    omega

/-- Numbers that are further apart than a small part of the lower one are rounded to different
patterns. -/
theorem round_lt_round {n m : ℕ} (hfraction : 2 ≤ fmt.fractionBits)
    (hgap : n + n / 2 ^ (fmt.fractionBits - 2) < m) (hfinite : fmt.round n 1 < fmt.infinity) :
    fmt.round n 1 < fmt.round m 1 := by
  by_contra hle
  rw [Nat.not_lt] at hle
  -- The upper number does not reach the next pattern, the lower one is above the previous one.
  have hupper : m < fmt.units (fmt.round n 1 + 1) := by
    refine Nat.lt_of_not_le fun h => ?_
    have := fmt.le_round Nat.one_pos (Nat.succ_le_of_lt hfinite)
      (Nat.le_trans (Nat.le_of_eq (Nat.mul_one _)) h)
    omega
  generalize hround : fmt.round n 1 = P at *
  cases P with
  | zero =>
    have hone : fmt.units 1 = 1 := units_of_lt (Nat.one_lt_two_pow (by omega))
    rw [Nat.zero_add, hone, Nat.lt_one_iff] at hupper
    exact absurd hgap (by rw [hupper]; exact Nat.not_lt_zero _)
  | succ P =>
    have hlower : fmt.units P < n := by
      refine Nat.lt_of_not_le fun h => ?_
      have := fmt.round_le Nat.one_pos (Nat.le_trans h (Nat.le_of_eq (Nat.mul_one _).symm))
      omega
    have hpart : fmt.units P / 2 ^ (fmt.fractionBits - 2) ≤ n / 2 ^ (fmt.fractionBits - 2) :=
      Nat.div_le_div_right hlower.le
    change m < fmt.units (P + 2) at hupper
    rcases fmt.units_add_two_le P hfraction with hstep | hstep
    · have hstrict : n < m := Nat.lt_of_le_of_lt (Nat.le_add_right ..) hgap
      omega
    · omega

end Format

namespace Binary

/-- The word nearest to an integer. -/
def ofInt {fmt : Format} (n : ℤ) : Binary fmt := roundedSum false (n * ↑(2 ^ fmt.point : ℕ)) 1

variable {fmt : Format} {x y scale : Binary fmt} {j k : ℕ}

/-- A finite word that is not at most zero is positive. -/
theorem pos_of_not_le_zero (hx : x.isFinite = true) (h : x.le (zero false) = false) :
    x.negative = false ∧ 0 < x.units := by
  have hkey : 0 < x.key := by
    have hzero : (zero false : Binary fmt).isNaN = false := decide_eq_false (Nat.not_lt_zero _)
    have hnone : (zero false : Binary fmt).key = 0 := rfl
    rw [le, isNaN_eq_false hx, hzero, hnone] at h
    simpa using h
  cases hsign : x.negative with
  | true =>
    rw [key, hsign, if_pos rfl] at hkey
    omega
  | false =>
    refine ⟨rfl, Nat.pos_of_ne_zero fun hunits => ?_⟩
    rw [key, hsign, of_decide_eq_true (units_eq_zero_iff.1 hunits)] at hkey
    exact absurd hkey (by decide)

/-- The product of a word with a small integer. -/
theorem magnitude_mul_ofUnits (hx : x.isFinite = true) (hscale : scale.isFinite = true)
    (hunits : x.units = k * 2 ^ fmt.point) :
    (x.mul scale).magnitude = fmt.round (k * scale.units) 1 := by
  rw [mul_eq_rounded hx hscale, hunits]
  change fmt.round (k * 2 ^ fmt.point * scale.units) (2 ^ fmt.point) = _
  have hmul := fmt.round_mul_right (k * scale.units) 1 (Nat.two_pow_pos fmt.point)
  rw [Nat.one_mul] at hmul
  rw [← hmul]
  congr 1
  ring

/-- Small integers with the same finite product are equal. -/
theorem eq_of_mul_eq (hx : x.isFinite = true) (hy : y.isFinite = true)
    (hscale : scale.isFinite = true) (hpos : 0 < scale.units) (hxu : x.units = j * 2 ^ fmt.point)
    (hyu : y.units = k * 2 ^ fmt.point) (hfraction : 2 ≤ fmt.fractionBits)
    (hj : j < 2 ^ (fmt.fractionBits - 2)) (hk : k < 2 ^ (fmt.fractionBits - 2))
    (heq : x.mul scale = y.mul scale) (hfinite : (x.mul scale).isFinite = true) :
    j = k ∧ x.negative = y.negative := by
  have hmagnitude : fmt.round (j * scale.units) 1 = fmt.round (k * scale.units) 1 := by
    rw [← magnitude_mul_ofUnits hx hscale hxu, ← magnitude_mul_ofUnits hy hscale hyu, heq]
  have hbound : fmt.round (j * scale.units) 1 < fmt.infinity := by
    rw [← magnitude_mul_ofUnits hx hscale hxu]
    exact of_decide_eq_true hfinite
  have hgap : ∀ a b : ℕ, a < 2 ^ (fmt.fractionBits - 2) → a < b →
      a * scale.units + a * scale.units / 2 ^ (fmt.fractionBits - 2) < b * scale.units := by
    intro a b ha hab
    have hpart : a * scale.units / 2 ^ (fmt.fractionBits - 2) < scale.units := by
      rw [Nat.div_lt_iff_lt_mul (Nat.two_pow_pos _), Nat.mul_comm scale.units]
      exact Nat.mul_lt_mul_of_pos_right ha hpos
    have hnext : (a + 1) * scale.units ≤ b * scale.units := Nat.mul_le_mul_right _ hab
    rw [Nat.succ_mul] at hnext
    omega
  refine ⟨?_, ?_⟩
  · rcases Nat.lt_trichotomy j k with hlt | heq | hgt
    · exact absurd hmagnitude (Nat.ne_of_lt (fmt.round_lt_round hfraction (hgap j k hj hlt) hbound))
    · exact heq
    · exact absurd hmagnitude.symm (Nat.ne_of_lt
        (fmt.round_lt_round hfraction (hgap k j hk hgt) (hmagnitude ▸ hbound)))
  · have hsign := congrArg negative heq
    rw [negative_mul hx hscale, negative_mul hy hscale] at hsign
    cases hxn : x.negative <;> cases hyn : y.negative <;> simp_all

end Binary

end NNIS
