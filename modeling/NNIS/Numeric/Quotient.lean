import NNIS.Numeric.Bounds

/-!
# Comparisons of values and quotients in double precision

Words without a sign are ordered as their values. A quotient of two single-precision numbers that is
computed in double precision lies on the same side of every small number of quarters as the exact
quotient: two different numbers of at most 24 digits, one of them multiplied by a small number,
differ by far more than the rounding of the quotient.

## Main results

* `Format.units_strictMono`, `Binary.lt_iff_units_lt`, `Binary.le_iff_units_le`.
* `F32.convert_binary64` — conversion to double precision is exact.
* `F32.quotient_lt_iff`, `F32.lt_quotient_iff` — a quotient against a number of quarters.
-/

set_option autoImplicit false

namespace NNIS

namespace Format

variable {fmt : Format}

theorem units_strictMono : StrictMono fmt.units := by
  refine strictMono_nat_of_lt_succ fun p => ?_
  rcases Nat.lt_or_ge p (2 ^ fmt.fractionBits) with hlt | hge
  · rw [units, if_pos hlt]
    rcases Nat.lt_or_ge (p + 1) (2 ^ fmt.fractionBits) with hlt' | hge'
    · rw [units, if_pos hlt']
      exact Nat.lt_succ_self p
    · have hstart := units_start fmt 0
      rw [Nat.zero_add, Nat.one_mul, Nat.add_zero] at hstart
      rw [(by omega : p + 1 = 2 ^ fmt.fractionBits), hstart]
      exact hlt
  · rw [units_succ hge]
    exact Nat.lt_add_of_pos_right (Nat.two_pow_pos _)

@[simp] theorem units_zero : fmt.units 0 = 0 := by
  rw [units, if_pos (Nat.two_pow_pos _)]

end Format

namespace Binary

variable {fmt : Format} {x y : Binary fmt}

theorem units_eq_zero_iff : x.units = 0 ↔ x.isZero = true := by
  rw [isZero, decide_eq_true_eq, units]
  constructor
  · intro h
    by_contra hne
    have hlt : fmt.units 0 < fmt.units x.magnitude :=
      Format.units_strictMono (Nat.pos_of_ne_zero hne)
    rw [Format.units_zero, h] at hlt
    exact Nat.lt_irrefl 0 hlt
  · intro h
    rw [h, Format.units_zero]

/-- Words without a sign are ordered as their values. -/
theorem lt_iff_units_lt (hx : x.isFinite = true) (hy : y.isFinite = true)
    (hxn : x.negative = false) (hyn : y.negative = false) :
    x.lt y = true ↔ x.units < y.units := by
  rw [lt_iff_key_lt hx hy, key, key, hxn, hyn, units, units, Format.units_strictMono.lt_iff_lt]
  exact Int.ofNat_lt

theorem le_iff_units_le (hx : x.isFinite = true) (hy : y.isFinite = true)
    (hxn : x.negative = false) (hyn : y.negative = false) :
    x.le y = true ↔ x.units ≤ y.units := by
  rw [le, isNaN_eq_false hx, isNaN_eq_false hy, key, key, hxn, hyn, units, units,
    Format.units_strictMono.le_iff_le]
  simp only [Bool.not_false, Bool.true_and, decide_eq_true_eq, Bool.false_eq_true, ↓reduceIte,
    Int.ofNat_le]

/-- Words are ordered as their values. -/
theorem le_iff_signedUnits_le (hx : x.isFinite = true) (hy : y.isFinite = true) :
    x.le y = true ↔ x.signedUnits ≤ y.signedUnits := by
  have hmono {a b : ℕ} : fmt.units a ≤ fmt.units b ↔ a ≤ b := Format.units_strictMono.le_iff_le
  have hzero {a : ℕ} : fmt.units a = 0 ↔ a = 0 := by
    have h := hmono (a := a) (b := 0)
    rwa [Format.units_zero, Nat.le_zero, Nat.le_zero] at h
  rw [le_eq (isNaN_eq_false hx) (isNaN_eq_false hy), decide_eq_true_eq, key, key, signedUnits,
    signedUnits, units, units]
  have hle := hmono (a := x.magnitude) (b := y.magnitude)
  have hge := hmono (a := y.magnitude) (b := x.magnitude)
  have hx0 := hzero (a := x.magnitude)
  have hy0 := hzero (a := y.magnitude)
  split_ifs <;> omega

/-- A finite word divided by a finite one other than zero is a rounded fraction. -/
theorem div_eq_rounded_of_ne_zero (hx : x.isFinite = true) (hy : y.isFinite = true)
    (hne : y.units ≠ 0) :
    x.div y = rounded (xor x.negative y.negative) (x.units * 2 ^ fmt.point) y.units := by
  have hzero : y.isZero = false := by
    rw [← Bool.not_eq_true, ← units_eq_zero_iff]
    exact hne
  simp only [div, isNaN_eq_false hx, isNaN_eq_false hy, isInfinite_eq_false hx,
    isInfinite_eq_false hy, hzero, Bool.or_self, Bool.false_eq_true, ↓reduceIte]

end Binary

/-- A value of single precision: at most 24 digits and a power of two in range. -/
structure F32.Digits (v : ℕ) : Prop where
  exists_eq : ∃ c j, c < 2 ^ 24 ∧ j ≤ 276 ∧ v = c * 2 ^ j

theorem F32.digits_units {x : F32} (hx : x.isFinite = true) : F32.Digits x.units := by
  obtain ⟨c, j, hc, hj, hunits⟩ := Format.exists_units_eq (of_decide_eq_true hx)
  have hrange : j ≤ 253 := hj
  exact ⟨c, j, hc, by omega, hunits⟩

theorem F32.digits_two_pow {j : ℕ} (hj : j ≤ 276) : F32.Digits (2 ^ j) :=
  ⟨1, j, by decide, hj, (Nat.one_mul _).symm⟩

theorem mul_two_pow (n a b : ℕ) : n * 2 ^ a * 2 ^ b = n * 2 ^ (a + b) := by
  rw [Nat.mul_assoc, ← Nat.pow_add]

/-- The conversion of a word to double precision is exact. -/
theorem F32.convert_binary64 {x : F32} (hx : x.isFinite = true) :
    (x.convert binary64).units = x.units * 2 ^ 925 ∧ (x.convert binary64).isFinite = true ∧
      (x.convert binary64).negative = x.negative := by
  obtain ⟨c, j, hc, hj, hunits⟩ := F32.digits_units hx
  have hwide : x.units * 2 ^ binary64.point = c * 2 ^ (j + 925) * 2 ^ binary32.point := by
    rw [hunits, point_binary32, point_binary64, mul_two_pow, mul_two_pow]
  obtain ⟨hvalue, hfinite, hsign⟩ := Binary.convert_units hx hwide (Nat.lt_trans hc (by decide))
    (Nat.lt_of_le_of_lt (by omega : j + 925 + 2 ≤ 1203) (by decide))
  refine ⟨?_, hfinite, hsign⟩
  rw [hvalue, hunits, mul_two_pow]

/-! ### A quotient against quarters -/

/-- Different numbers of few digits are far apart. -/
private theorem gap {v s q : ℕ} (hv : F32.Digits v) (hs : F32.Digits s) (hq : 0 < q)
    (hne : 4 * v ≠ q * s) :
    (4 * v < q * s → s + 4 * v * 2 ^ 48 ≤ q * s * 2 ^ 48) ∧
      (q * s < 4 * v → s + q * s * 2 ^ 48 ≤ 4 * v * 2 ^ 48) := by
  obtain ⟨a, i, ha, -, rfl⟩ := hv
  obtain ⟨b, j, hb, -, rfl⟩ := hs
  have hfour : 4 * (a * 2 ^ i) = a * 2 ^ (i + 2) := by
    rw [Nat.pow_add]
    ring
  rw [hfour] at hne ⊢
  rcases Nat.le_total j (i + 2) with hle | hle
  · -- Both are multiples of the scale's last digit.
    obtain ⟨t, ht⟩ := Nat.exists_eq_add_of_le hle
    have hpos : 0 < 2 ^ j := Nat.two_pow_pos j
    have hv' : a * 2 ^ (i + 2) = a * 2 ^ t * 2 ^ j := by rw [ht, Nat.add_comm, mul_two_pow]
    rw [hv', ← Nat.mul_assoc q]
    refine ⟨fun hlt => ?_, fun hlt => ?_⟩
    · have hdigits := Nat.lt_of_mul_lt_mul_right hlt
      calc b * 2 ^ j + a * 2 ^ t * 2 ^ j * 2 ^ 48 = (b + a * 2 ^ t * 2 ^ 48) * 2 ^ j := by ring
        _ ≤ q * b * 2 ^ 48 * 2 ^ j := Nat.mul_le_mul_right _ (by omega)
        _ = q * b * 2 ^ j * 2 ^ 48 := by ring
    · have hdigits := Nat.lt_of_mul_lt_mul_right hlt
      calc b * 2 ^ j + q * b * 2 ^ j * 2 ^ 48 = (b + q * b * 2 ^ 48) * 2 ^ j := by ring
        _ ≤ a * 2 ^ t * 2 ^ 48 * 2 ^ j := Nat.mul_le_mul_right _ (by omega)
        _ = a * 2 ^ t * 2 ^ j * 2 ^ 48 := by ring
  · -- Both are multiples of the value's last digit, and the value is not small if they are close.
    obtain ⟨t, ht⟩ := Nat.exists_eq_add_of_le hle
    have hpos : 0 < 2 ^ (i + 2) := Nat.two_pow_pos _
    have hs' : b * 2 ^ j = b * 2 ^ t * 2 ^ (i + 2) := by rw [ht, Nat.add_comm, mul_two_pow]
    rw [hs', ← Nat.mul_assoc q]
    generalize b * 2 ^ t = B
    have hB : B ≤ q * B := Nat.le_mul_of_pos_left B hq
    refine ⟨fun hlt => ?_, fun hlt => ?_⟩
    · have hdigits := Nat.lt_of_mul_lt_mul_right hlt
      calc B * 2 ^ (i + 2) + a * 2 ^ (i + 2) * 2 ^ 48 = (B + a * 2 ^ 48) * 2 ^ (i + 2) := by ring
        _ ≤ q * B * 2 ^ 48 * 2 ^ (i + 2) := Nat.mul_le_mul_right _ (by omega)
        _ = q * B * 2 ^ (i + 2) * 2 ^ 48 := by ring
    · have hdigits := Nat.lt_of_mul_lt_mul_right hlt
      calc B * 2 ^ (i + 2) + q * B * 2 ^ (i + 2) * 2 ^ 48 = (B + q * B * 2 ^ 48) * 2 ^ (i + 2) := by
            ring
        _ ≤ a * 2 ^ 48 * 2 ^ (i + 2) := Nat.mul_le_mul_right _ (by omega)
        _ = a * 2 ^ (i + 2) * 2 ^ 48 := by ring

private theorem four_mul_two_pow : 4 * 2 ^ 1072 = 2 ^ 1074 := by
  rw [show 4 = 2 ^ 2 from rfl, two_pow_mul 2 1072 1074 rfl]

private theorem four_mul_two_pow_mul : 4 * 2 ^ 48 * 2 ^ 1024 = 2 ^ 1074 := by
  rw [show 4 * 2 ^ 48 = 2 ^ 50 from rfl, two_pow_mul 50 1024 1074 rfl]

/-- The quotient of a value by a scale, computed in double precision. -/
def F32.quotient (v s : ℕ) : ℕ := binary64.units (binary64.round (v * 2 ^ 1074) s)

/-- A number of at most 53 digits above the smallest quarters is a pattern. -/
private theorem exists_pattern {c : ℕ} (hc : c < 2 ^ 53) {j : ℕ} (hj : j ≤ 1072) :
    ∃ p < binary64.infinity, binary64.units p = c * 2 ^ j := by
  have hj' : j + 2 < 2 ^ binary64.exponentBits :=
    Nat.lt_of_le_of_lt (by omega : j + 2 ≤ 1074) (by decide)
  obtain ⟨hunits, hfinite⟩ := Format.units_round hc hj'
  exact ⟨_, hfinite, hunits⟩

variable {v s q : ℕ}

private theorem quotient_le {c j : ℕ} (hc : c < 2 ^ 53) (hj : j ≤ 1072) (hs : 0 < s)
    (h : v * 2 ^ 1074 ≤ c * 2 ^ j * s) : F32.quotient v s ≤ c * 2 ^ j := by
  obtain ⟨p, -, hp⟩ := exists_pattern hc hj
  rw [F32.quotient, ← hp]
  exact Format.units_mono (Format.round_le _ hs (by rwa [hp]))

private theorem le_quotient {c j : ℕ} (hc : c < 2 ^ 53) (hj : j ≤ 1072) (hs : 0 < s)
    (h : c * 2 ^ j * s ≤ v * 2 ^ 1074) : c * 2 ^ j ≤ F32.quotient v s := by
  obtain ⟨p, hfinite, hp⟩ := exists_pattern hc hj
  rw [F32.quotient, ← hp]
  exact Format.units_mono (Format.le_round hs hfinite.le (by rwa [hp]))

/-- The computed quotient is below a number of quarters exactly when the exact one is. -/
theorem F32.quotient_lt_iff (hv : F32.Digits v) (hs : F32.Digits s) (hpos : 0 < s) (hq : 0 < q)
    (hq' : q < 2 ^ 5) : F32.quotient v s < q * 2 ^ 1072 ↔ 4 * v < q * s := by
  constructor
  · intro hlt
    by_contra hge
    refine Nat.not_lt.2 (le_quotient (c := q) (by omega) (Nat.le_refl _) hpos ?_) hlt
    calc q * 2 ^ 1072 * s = q * s * 2 ^ 1072 := Nat.mul_right_comm ..
      _ ≤ 4 * v * 2 ^ 1072 := Nat.mul_le_mul_right _ (Nat.not_lt.1 hge)
      _ = v * (4 * 2 ^ 1072) := by rw [Nat.mul_comm 4 v, Nat.mul_assoc]
      _ = v * 2 ^ 1074 := by rw [four_mul_two_pow]
  · intro hlt
    have hgap := (gap hv hs hq (Nat.ne_of_lt hlt)).1 hlt
    have hbelow : F32.quotient v s ≤ (q * 2 ^ 48 - 1) * 2 ^ 1024 := by
      refine quotient_le (by omega) (by omega) hpos ?_
      have hdigits : 4 * v * 2 ^ 48 ≤ (q * 2 ^ 48 - 1) * s := by
        rw [Nat.sub_mul, Nat.one_mul, Nat.mul_right_comm q]
        exact Nat.le_sub_of_add_le' hgap
      calc v * 2 ^ 1074 = v * (4 * 2 ^ 48 * 2 ^ 1024) := by rw [four_mul_two_pow_mul]
        _ = 4 * v * 2 ^ 48 * 2 ^ 1024 := by simp only [Nat.mul_comm 4 v, Nat.mul_assoc]
        _ ≤ (q * 2 ^ 48 - 1) * s * 2 ^ 1024 := Nat.mul_le_mul_right _ hdigits
        _ = (q * 2 ^ 48 - 1) * 2 ^ 1024 * s := Nat.mul_right_comm ..
    refine hbelow.trans_lt ?_
    calc (q * 2 ^ 48 - 1) * 2 ^ 1024 < q * 2 ^ 48 * 2 ^ 1024 :=
          Nat.mul_lt_mul_of_pos_right (by omega) (pow_pos two_pos _)
      _ = q * 2 ^ 1072 := by rw [mul_two_pow q 48 1024]

/-- The computed quotient is above a number of quarters exactly when the exact one is. -/
theorem F32.lt_quotient_iff (hv : F32.Digits v) (hs : F32.Digits s) (hpos : 0 < s) (hq : 0 < q)
    (hq' : q < 2 ^ 5 - 1) : q * 2 ^ 1072 < F32.quotient v s ↔ q * s < 4 * v := by
  constructor
  · intro hlt
    by_contra hge
    refine Nat.not_lt.2 (quotient_le (c := q) (by omega) (Nat.le_refl _) hpos ?_) hlt
    calc v * 2 ^ 1074 = v * (4 * 2 ^ 1072) := by rw [four_mul_two_pow]
      _ = 4 * v * 2 ^ 1072 := by rw [Nat.mul_comm 4 v, Nat.mul_assoc]
      _ ≤ q * s * 2 ^ 1072 := Nat.mul_le_mul_right _ (Nat.not_lt.1 hge)
      _ = q * 2 ^ 1072 * s := Nat.mul_right_comm ..
  · intro hlt
    have hgap := (gap hv hs hq (Nat.ne_of_gt hlt)).2 hlt
    have habove : (q * 2 ^ 48 + 1) * 2 ^ 1024 ≤ F32.quotient v s := by
      refine le_quotient (by omega) (by omega) hpos ?_
      calc (q * 2 ^ 48 + 1) * 2 ^ 1024 * s = (s + q * s * 2 ^ 48) * 2 ^ 1024 := by
            generalize 2 ^ 1024 = power
            ring
        _ ≤ 4 * v * 2 ^ 48 * 2 ^ 1024 := Nat.mul_le_mul_right _ hgap
        _ = v * (4 * 2 ^ 48 * 2 ^ 1024) := by simp only [Nat.mul_comm 4 v, Nat.mul_assoc]
        _ = v * 2 ^ 1074 := by rw [four_mul_two_pow_mul]
    refine Nat.lt_of_lt_of_le ?_ habove
    calc q * 2 ^ 1072 = q * 2 ^ 48 * 2 ^ 1024 := by rw [mul_two_pow q 48 1024]
      _ < (q * 2 ^ 48 + 1) * 2 ^ 1024 :=
          Nat.mul_lt_mul_of_pos_right (Nat.lt_succ_self _) (pow_pos two_pos _)

end NNIS
