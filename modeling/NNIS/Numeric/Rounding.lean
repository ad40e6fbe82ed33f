import NNIS.Numeric.Binary

/-!
# Exact and single rounding

A fraction is rounded by its value: a common factor of both sides does not matter. A number of at
most `f + 1` significant binary digits within the range of a format is rounded to a pattern of that
value, so conversions to a wider format and products of few digits are exact and only the last
operation rounds.

## Main results

* `Format.round_mul_right` — a common factor.
* `Format.units_round` — numbers of few digits are exact.
* `Binary.convert_units`, `Binary.mul_units` — exact conversions and products.
-/

set_option autoImplicit false

namespace NNIS

namespace Format

variable (fmt : Format)

theorem nearestEven_mul_right (n d : ℕ) {c : ℕ} (hc : 0 < c) :
    nearestEven (n * c) (d * c) = nearestEven n d := by
  have hdouble : 2 * (n % d * c) = 2 * (n % d) * c := (Nat.mul_assoc ..).symm
  simp only [nearestEven, Nat.mul_mod_mul_right, Nat.mul_div_mul_right _ _ hc, hdouble,
    Nat.mul_lt_mul_right hc]

/-- A common factor of a fraction does not matter. -/
theorem round_mul_right (n d : ℕ) {c : ℕ} (hc : 0 < c) :
    fmt.round (n * c) (d * c) = fmt.round n d := by
  have hassoc (m : ℕ) : d * c * m = d * m * c := Nat.mul_right_comm ..
  simp only [round, Nat.mul_div_mul_right _ _ hc, hassoc, nearestEven_mul_right _ _ hc]

theorem nearestEven_mul_self (n : ℕ) {d : ℕ} (hd : 0 < d) : nearestEven (n * d) d = n := by
  rw [nearestEven, Nat.mul_mod_left, Nat.mul_zero, if_pos hd, Nat.mul_div_cancel _ hd]

variable {fmt}

/-- The value of a pattern by its block and its multiple. -/
theorem units_block {s m : ℕ} (hlow : 2 ^ fmt.fractionBits ≤ m)
    (hhigh : m < 2 * 2 ^ fmt.fractionBits) :
    fmt.units (s * 2 ^ fmt.fractionBits + m) = m * 2 ^ s := by
  set F := 2 ^ fmt.fractionBits with hF
  have hF0 : 0 < F := Nat.two_pow_pos _
  have hsplit : s * F + m = F * (s + 1) + (m - F) := by
    rw [Nat.mul_add_one, Nat.mul_comm s]
    omega
  have hdiv : (s * F + m) / F = s + 1 := by
    rw [hsplit, Nat.mul_add_div hF0, Nat.div_eq_of_lt (by omega), Nat.add_zero]
  have hmod : (s * F + m) % F = m - F := by
    rw [hsplit, Nat.mul_add_mod, Nat.mod_eq_of_lt (by omega)]
  rw [units, ← hF, if_neg (by omega), hdiv, hmod, Nat.add_sub_cancel, Nat.add_sub_cancel' hlow]

/-- A number of at most `f + 1` significant digits that is in range is rounded to itself. -/
theorem units_round {c j : ℕ} (hc : c < 2 ^ (fmt.fractionBits + 1))
    (hj : j + 2 < 2 ^ fmt.exponentBits) :
    fmt.units (fmt.round (c * 2 ^ j) 1) = c * 2 ^ j ∧ fmt.round (c * 2 ^ j) 1 < fmt.infinity := by
  set F := 2 ^ fmt.fractionBits with hF
  have hF0 : 0 < F := Nat.two_pow_pos _
  have hinfinity : (j + 2) * F ≤ fmt.infinity := Nat.mul_le_mul_right F (by omega)
  have htwo : 2 * F ≤ (j + 2) * F := Nat.mul_le_mul_right F (by omega)
  have hround : fmt.round (c * 2 ^ j) 1 = min (((c * 2 ^ j).log2 - fmt.fractionBits) * F +
      nearestEven (c * 2 ^ j) (2 ^ ((c * 2 ^ j).log2 - fmt.fractionBits))) fmt.infinity := by
    rw [round, Nat.div_one, Nat.one_mul]
  rcases Nat.lt_or_ge (c * 2 ^ j) (2 * F) with hsmall | hlarge
  · -- A number below two blocks is its own pattern.
    have hlog : (c * 2 ^ j).log2 - fmt.fractionBits = 0 := by
      rcases Nat.eq_zero_or_pos (c * 2 ^ j) with h0 | h0
      · rw [h0, Nat.log2_zero, Nat.zero_sub]
      · have hlt : (c * 2 ^ j).log2 < fmt.fractionBits + 1 :=
          (Nat.log2_lt h0.ne').2 (by rwa [Nat.pow_succ, Nat.mul_comm _ 2])
        omega
    have hpattern : fmt.round (c * 2 ^ j) 1 = c * 2 ^ j := by
      have hexact := nearestEven_mul_self (c * 2 ^ j) Nat.one_pos
      rw [Nat.mul_one] at hexact
      rw [hround, hlog, Nat.zero_mul, Nat.zero_add, Nat.pow_zero, hexact]
      exact Nat.min_eq_left (by omega)
    rw [hpattern]
    refine ⟨?_, by omega⟩
    rcases Nat.lt_or_ge (c * 2 ^ j) F with hsub | hnormal
    · rw [units, if_pos hsub]
    · have hblock := units_block (s := 0) hnormal hsmall
      rwa [Nat.zero_mul, Nat.zero_add, Nat.pow_zero, Nat.mul_one] at hblock
  · -- The power of two that is read off a larger number divides it.
    set s := (c * 2 ^ j).log2 - fmt.fractionBits with hs
    have hpos : c * 2 ^ j ≠ 0 := by omega
    have hlog_lt : (c * 2 ^ j).log2 < fmt.fractionBits + 1 + j := by
      refine (Nat.log2_lt hpos).2 ?_
      rw [Nat.pow_add]
      exact Nat.mul_lt_mul_of_pos_right hc (Nat.two_pow_pos j)
    have hlog_ge : fmt.fractionBits + 1 ≤ (c * 2 ^ j).log2 := by
      refine (Nat.le_log2 hpos).2 ?_
      rwa [Nat.pow_succ, Nat.mul_comm]
    obtain ⟨m, hm⟩ : ∃ m, c * 2 ^ j = m * 2 ^ s :=
      ⟨c * 2 ^ (j - s), by rw [Nat.mul_assoc, ← Nat.pow_add, Nat.sub_add_cancel (by omega)]⟩
    have hlog : (c * 2 ^ j).log2 = fmt.fractionBits + s := by omega
    have hlow : F ≤ m := by
      have hle := Nat.log2_self_le hpos
      rw [hlog, hm, Nat.pow_add] at hle
      exact Nat.le_of_mul_le_mul_right hle (Nat.two_pow_pos s)
    have hhigh : m < 2 * F := by
      have hlt := Nat.lt_log2_self (n := c * 2 ^ j)
      rw [hlog, hm, Nat.add_right_comm, Nat.pow_add, Nat.pow_succ, Nat.mul_comm _ 2] at hlt
      exact Nat.lt_of_mul_lt_mul_right hlt
    have hfits : s * F + m < fmt.infinity := by
      have hle : (s + 2) * F ≤ (j + 2) * F := Nat.mul_le_mul_right F (by omega)
      rw [Nat.add_mul] at hle
      omega
    rw [hround, hm, nearestEven_mul_self m (Nat.two_pow_pos s), Nat.min_eq_left hfits.le]
    exact ⟨units_block hlow hhigh, hfits⟩

/-- The value of a finite pattern has at most `f + 1` significant digits. -/
theorem exists_units_eq {p : ℕ} (hp : p < fmt.infinity) :
    ∃ c j, c < 2 ^ (fmt.fractionBits + 1) ∧ j ≤ 2 ^ fmt.exponentBits - 3 ∧
      fmt.units p = c * 2 ^ j := by
  set F := 2 ^ fmt.fractionBits with hF
  have hF0 : 0 < F := Nat.two_pow_pos _
  have hdouble : 2 ^ (fmt.fractionBits + 1) = 2 * F := by rw [Nat.pow_succ, Nat.mul_comm]
  have hdiv : p / F < 2 ^ fmt.exponentBits - 1 := (Nat.div_lt_iff_lt_mul hF0).2 hp
  have hmod : p % F < F := Nat.mod_lt p hF0
  rcases Nat.lt_or_ge p F with hsub | hnormal
  · refine ⟨p, 0, by omega, Nat.zero_le _, ?_⟩
    rw [units, if_pos hsub, Nat.pow_zero, Nat.mul_one]
  · have hone : 1 ≤ p / F := (Nat.one_le_div_iff hF0).2 hnormal
    refine ⟨F + p % F, p / F - 1, by omega, by omega, ?_⟩
    rw [units, ← hF, if_neg (by omega)]

end Format

namespace Binary

variable {fmt fmt' : Format}

theorem units_rounded (negative : Bool) {n d c j : ℕ} (hd : 0 < d) (hn : n = c * 2 ^ j * d)
    (hc : c < 2 ^ (fmt.fractionBits + 1)) (hj : j + 2 < 2 ^ fmt.exponentBits) :
    (rounded negative n d : Binary fmt).units = c * 2 ^ j ∧
      (rounded negative n d : Binary fmt).isFinite = true := by
  have hround : fmt.round n d = fmt.round (c * 2 ^ j) 1 := by
    rw [hn, ← fmt.round_mul_right (c * 2 ^ j) 1 hd, Nat.one_mul]
  obtain ⟨hunits, hfinite⟩ := Format.units_round hc hj
  rw [← hround] at hunits hfinite
  exact ⟨hunits, decide_eq_true hfinite⟩

/-- A word whose value has few digits in the other format is converted exactly. -/
theorem convert_units {x : Binary fmt} (hx : x.isFinite = true) {c j : ℕ}
    (hn : x.units * 2 ^ fmt'.point = c * 2 ^ j * 2 ^ fmt.point)
    (hc : c < 2 ^ (fmt'.fractionBits + 1)) (hj : j + 2 < 2 ^ fmt'.exponentBits) :
    (x.convert fmt').units = c * 2 ^ j ∧ (x.convert fmt').isFinite = true ∧
      (x.convert fmt').negative = x.negative := by
  rw [convert, isNaN_eq_false hx, isInfinite_eq_false hx]
  obtain ⟨hunits, hfinite⟩ := units_rounded x.negative (Nat.two_pow_pos _) hn hc hj
  exact ⟨hunits, hfinite, rfl⟩

/-- A product of few digits is exact. -/
theorem mul_units {x y : Binary fmt} (hx : x.isFinite = true) (hy : y.isFinite = true) {c j : ℕ}
    (hn : x.units * y.units = c * 2 ^ j * 2 ^ fmt.point)
    (hc : c < 2 ^ (fmt.fractionBits + 1)) (hj : j + 2 < 2 ^ fmt.exponentBits) :
    (x.mul y).units = c * 2 ^ j ∧ (x.mul y).isFinite = true ∧
      (x.mul y).negative = xor x.negative y.negative := by
  rw [mul, isNaN_eq_false hx, isNaN_eq_false hy, isInfinite_eq_false hx, isInfinite_eq_false hy]
  obtain ⟨hunits, hfinite⟩ :=
    units_rounded (xor x.negative y.negative) (Nat.two_pow_pos _) hn hc hj
  exact ⟨hunits, hfinite, rfl⟩

/-- The conversion of a finite word is its value rounded once. -/
theorem convert_eq_rounded {x : Binary fmt} (hx : x.isFinite = true) :
    x.convert fmt' = rounded x.negative (x.units * 2 ^ fmt'.point) (2 ^ fmt.point) := by
  rw [convert, isNaN_eq_false hx, isInfinite_eq_false hx]
  rfl

theorem rounded_mul_right (negative : Bool) (n d : ℕ) {c : ℕ} (hc : 0 < c) :
    (rounded negative (n * c) (d * c) : Binary fmt) = rounded negative n d := by
  simp only [rounded, fmt.round_mul_right n d hc]

end Binary

end NNIS
