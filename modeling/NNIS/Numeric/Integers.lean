import NNIS.Numeric.Multiples
import NNIS.Numeric.Nearest
import NNIS.Numeric.Rounding

/-!
# Words and integers

A word is rounded to an integer with ties away from zero, kept between two words and read as a
signed byte. A rounded fraction is off by at most half of the power of two that is read off it.

A format holds every natural number of at most one bit more than its fraction. Sums and products of
such words are rounded once, so they are the words of the sums and products of the numbers.

## Main definitions

* `Binary.min`, `Binary.roundAway`, `Binary.toI8`.

## Main results

* `Format.units_round_near` — the error of a rounded fraction.
* `F32.units_div_near`, `F32.units_mul_near`, `F32.units_seventh_near` — the errors of a small
  quotient, of a small multiple and of a seventh.
* `Binary.isFinite_ofNat`, `Binary.ofNat_zero` — the words of small numbers.
* `Binary.ofNat_add_ofNat`, `Binary.ofNat_mulAdd_ofNat` — exact arithmetic on them.
-/

set_option autoImplicit false

namespace NNIS

namespace Binary

variable {fmt : Format}

/-- The lesser of two words, the other one when one is not a number. -/
def min (x y : Binary fmt) : Binary fmt :=
  if x.isNaN then y else if y.isNaN then x else if y.lt x then y else x

/-- The nearest integer to half the units of a word, away from zero. -/
def nearestAway (fmt : Format) (units : ℕ) : ℕ :=
  (2 * units + 2 ^ fmt.point) / (2 * 2 ^ fmt.point)

/-- The nearest integer, the one away from zero of two. -/
def roundAway (x : Binary fmt) : Binary fmt :=
  if x.isFinite then rounded x.negative (nearestAway fmt x.units * 2 ^ fmt.point) 1 else x

/-- The integer part as a signed byte, saturated. -/
def toI8 (x : Binary fmt) : ℤ :=
  if x.isNaN then 0
  else if x.isInfinite then if x.negative then -128 else 127
  else
    let part : ℤ := x.units / 2 ^ fmt.point
    Max.max (-128) (Min.min 127 (if x.negative then -part else part))

theorem roundAway_eq {x : Binary fmt} (hx : x.isFinite = true) :
    x.roundAway = rounded x.negative (nearestAway fmt x.units * 2 ^ fmt.point) 1 := if_pos hx

theorem nearestAway_near (fmt : Format) (units : ℕ) :
    2 * (nearestAway fmt units * 2 ^ fmt.point) ≤ 2 * units + 2 ^ fmt.point ∧
      2 * units < 2 * (nearestAway fmt units * 2 ^ fmt.point) + 2 ^ fmt.point := by
  have hpos : 0 < 2 * 2 ^ fmt.point := Nat.mul_pos Nat.two_pos (Nat.two_pow_pos _)
  have hdiv := Nat.div_add_mod' (2 * units + 2 ^ fmt.point) (2 * 2 ^ fmt.point)
  have hmod := Nat.mod_lt (2 * units + 2 ^ fmt.point) hpos
  rw [← nearestAway, Nat.mul_left_comm] at hdiv
  generalize nearestAway fmt units * 2 ^ fmt.point = n at *
  generalize 2 ^ fmt.point = p at *
  omega

end Binary

namespace Format

variable {fmt : Format}

/-- A rounded fraction is off by at most half the power of two that is read off it. -/
theorem units_round_near {n d : ℕ} (hd : 0 < d) (h : fmt.round n d < fmt.infinity) :
    2 * n ≤ 2 * (fmt.units (fmt.round n d) * d) + d * 2 ^ fmt.shift n d ∧
      2 * (fmt.units (fmt.round n d) * d) ≤ 2 * n + d * 2 ^ fmt.shift n d := by
  have hpos : 0 < d * 2 ^ fmt.shift n d := Nat.mul_pos hd (Nat.two_pow_pos _)
  obtain ⟨hlow, hhigh, -⟩ := nearestEven_near n hpos
  rw [units_round_eq hd h]
  generalize nearestEven n (d * 2 ^ fmt.shift n d) = m at *
  generalize 2 ^ fmt.shift n d = t at *
  have hsplit : (2 * m + 1) * (d * t) = 2 * (m * t * d) + d * t := by ring
  have hdouble : 2 * m * (d * t) = 2 * (m * t * d) := by ring
  omega

/-- A fraction below a power of two in range is rounded to a finite word. -/
theorem round_le_start {n d s : ℕ} (hd : 0 < d) (h : n ≤ 2 ^ (fmt.fractionBits + s) * d) :
    fmt.round n d ≤ (s + 1) * 2 ^ fmt.fractionBits := by
  refine fmt.round_le hd ?_
  rwa [units_start]

end Format

/-! ### Single precision -/

namespace F32

private theorem infinity_binary32 : binary32.infinity = 255 * 2 ^ 23 := rfl

/-- A quotient below sixteen is finite and off by at most a small part of the divisor. -/
theorem units_div_near {v s : ℕ} (hs : 0 < s) (h : v < 16 * s) :
    binary32.round (v * 2 ^ 149) s < binary32.infinity ∧
      v * 2 ^ 149 ≤ binary32.units (binary32.round (v * 2 ^ 149) s) * s + 2 ^ 128 * s ∧
        binary32.units (binary32.round (v * 2 ^ 149) s) * s ≤ v * 2 ^ 149 + 2 ^ 128 * s := by
  have hlt : v * 2 ^ 149 < 2 ^ 153 * s := by omega
  have hfinite : binary32.round (v * 2 ^ 149) s < binary32.infinity := by
    have hle : binary32.round (v * 2 ^ 149) s ≤ (130 + 1) * 2 ^ 23 :=
      Format.round_le_start hs (hlt.le.trans_eq rfl)
    rw [infinity_binary32]
    omega
  have hshift : binary32.shift (v * 2 ^ 149) s ≤ 129 := by
    rcases binary32.shift_le (v * 2 ^ 149) s with h0 | hle
    · omega
    · have hdiv : v * 2 ^ 149 / s < 2 ^ 153 := Nat.div_lt_of_lt_mul (by omega)
      have hpow : 2 ^ (23 + binary32.shift (v * 2 ^ 149) s) < 2 ^ 153 := hle.trans_lt hdiv
      have hexponent := (Nat.pow_lt_pow_iff_right (by decide : 1 < 2)).1 hpow
      omega
  have hpart : s * 2 ^ binary32.shift (v * 2 ^ 149) s ≤ s * 2 ^ 129 :=
    Nat.mul_le_mul_left s (Nat.pow_le_pow_right Nat.two_pos hshift)
  obtain ⟨hlow, hhigh⟩ := Format.units_round_near hs hfinite
  generalize binary32.units (binary32.round (v * 2 ^ 149) s) * s = q at *
  exact ⟨hfinite, by omega, by omega⟩

/-- A small multiple of a word is off by at most a small part of the word, and exact where it is
small. -/
theorem units_mul_near {k s : ℕ} (hk : k ≤ 7)
    (h : binary32.round (k * s) 1 < binary32.infinity) :
    2 ^ 21 * (k * s) ≤ 2 ^ 21 * binary32.units (binary32.round (k * s) 1) + s ∧
      2 ^ 21 * binary32.units (binary32.round (k * s) 1) ≤ 2 ^ 21 * (k * s) + s ∧
        (k * s < 2 ^ 24 → binary32.units (binary32.round (k * s) 1) = k * s) := by
  have hexact (h0 : binary32.shift (k * s) 1 = 0) :
      binary32.units (binary32.round (k * s) 1) = k * s := by
    have hself := Format.nearestEven_mul_self (k * s) Nat.one_pos
    rw [Nat.mul_one] at hself
    rw [Format.units_round_eq Nat.one_pos h, h0, Nat.pow_zero, Nat.mul_one, Nat.mul_one, hself]
  have hmul : k * s ≤ 7 * s := Nat.mul_le_mul_right s hk
  refine ⟨?_, ?_, fun hlt => hexact (Format.shift_eq_zero ?_)⟩
  · rcases binary32.shift_le (k * s) 1 with h0 | hle
    · rw [hexact h0]
      exact Nat.le_add_right _ _
    · obtain ⟨hlow, -⟩ := Format.units_round_near Nat.one_pos h
      rw [Nat.pow_add, Nat.div_one] at hle
      change 2 ^ 23 * _ ≤ _ at hle
      omega
  · rcases binary32.shift_le (k * s) 1 with h0 | hle
    · rw [hexact h0]
      exact Nat.le_add_right _ _
    · obtain ⟨-, hhigh⟩ := Format.units_round_near Nat.one_pos h
      rw [Nat.pow_add, Nat.div_one] at hle
      change 2 ^ 23 * _ ≤ _ at hle
      omega
  · rw [Nat.div_one]
    exact hlt

/-- A seventh, by which seven times it is off. -/
theorem units_seventh_near {m : ℕ} (h : binary32.round m 7 < binary32.infinity) :
    (m ≤ 7 * binary32.units (binary32.round m 7) + 3 ∧
        7 * binary32.units (binary32.round m 7) ≤ m + 3) ∨
      2 ^ 20 * m ≤ (7 * 2 ^ 20 + 1) * binary32.units (binary32.round m 7) := by
  obtain ⟨hlow, hhigh⟩ := Format.units_round_near (by decide) h
  rcases binary32.shift_le m 7 with h0 | hle
  · rw [h0] at hlow hhigh
    exact .inl (by omega)
  · rw [Nat.pow_add, Nat.le_div_iff_mul_le (by decide)] at hle
    change 2 ^ 23 * _ * 7 ≤ _ at hle
    exact .inr (by omega)

end F32

namespace Binary

variable {fmt : Format} {a b c n : ℕ}

/-- The number is held by the format. -/
structure Counts (fmt : Format) (n : ℕ) : Prop where
  lt : n < 2 ^ (fmt.fractionBits + 1)
  point_lt : fmt.point + 2 < 2 ^ fmt.exponentBits

theorem units_ofNat (h : Counts fmt n) : (ofNat n : Binary fmt).units = n * 2 ^ fmt.point :=
  (units_rounded false Nat.one_pos (Nat.mul_one _).symm h.lt h.point_lt).1

theorem isFinite_ofNat (h : Counts fmt n) : (ofNat n : Binary fmt).isFinite = true :=
  (units_rounded false Nat.one_pos (Nat.mul_one _).symm h.lt h.point_lt).2

@[simp] theorem negative_ofNat (fmt : Format) (n : ℕ) :
    (ofNat n : Binary fmt).negative = false := rfl

@[simp] theorem ofNat_zero (fmt : Format) : (ofNat 0 : Binary fmt) = zero false := by
  simp [ofNat, rounded, zero, Format.round, Format.nearestEven]

theorem signedUnits_ofNat (h : Counts fmt n) :
    (ofNat n : Binary fmt).signedUnits = (n * 2 ^ fmt.point : ℕ) := by
  simp [signedUnits, units_ofNat h]

/-- A sum that is a small number is rounded to its word. -/
theorem roundedSum_natCast (n : ℕ) {d : ℕ} (hd : 0 < d) :
    (roundedSum false ((n * 2 ^ fmt.point * d : ℕ) : ℤ) d : Binary fmt) = ofNat n := by
  rw [roundedSum]
  split_ifs with hzero
  · have hn : n = 0 := by
      have hprod : n * 2 ^ fmt.point * d = 0 := Int.natCast_eq_zero.1 hzero
      simpa [hd.ne'] using hprod
    rw [hn, ofNat_zero]
  · have hsign : decide (((n * 2 ^ fmt.point * d : ℕ) : ℤ) < 0) = false :=
      decide_eq_false (Int.natCast_nonneg _).not_gt
    have hscale : (rounded false (n * 2 ^ fmt.point * d) (1 * d) : Binary fmt) = _ :=
      rounded_mul_right false (n * 2 ^ fmt.point) 1 hd
    rw [Nat.one_mul] at hscale
    rw [hsign, Int.natAbs_natCast, hscale, ofNat]

/-- The sum of two small numbers. -/
theorem ofNat_add_ofNat (ha : Counts fmt a) (hb : Counts fmt b) :
    (ofNat a : Binary fmt).add (ofNat b) = ofNat (a + b) := by
  have hsum : (roundedSum false (((a + b) * 2 ^ fmt.point * 1 : ℕ) : ℤ) 1 : Binary fmt) = _ :=
    roundedSum_natCast (a + b) Nat.one_pos
  rw [Nat.mul_one, Nat.add_mul, Nat.cast_add] at hsum
  simp only [add, isNaN_eq_false (isFinite_ofNat ha), isNaN_eq_false (isFinite_ofNat hb),
    isInfinite_eq_false (isFinite_ofNat ha), isInfinite_eq_false (isFinite_ofNat hb), Bool.or_self,
    Bool.false_eq_true, ↓reduceIte, negative_ofNat, Bool.and_self, signedUnits_ofNat ha,
    signedUnits_ofNat hb, hsum]

/-- The product of two small numbers plus a third. -/
theorem ofNat_mulAdd_ofNat (ha : Counts fmt a) (hb : Counts fmt b) (hc : Counts fmt c) :
    (ofNat a : Binary fmt).mulAdd (ofNat b) (ofNat c) = ofNat (a * b + c) := by
  have hsum : (roundedSum false (((a * b + c) * 2 ^ fmt.point * 2 ^ fmt.point : ℕ) : ℤ)
      (2 ^ fmt.point) : Binary fmt) = _ :=
        roundedSum_natCast (a * b + c) (Nat.two_pow_pos fmt.point)
  have hsplit : (((a * b + c) * 2 ^ fmt.point * 2 ^ fmt.point : ℕ) : ℤ) =
      (a * 2 ^ fmt.point : ℕ) * (b * 2 ^ fmt.point : ℕ) +
        (c * 2 ^ fmt.point : ℕ) * 2 ^ fmt.point := by
    push_cast
    ring
  rw [hsplit] at hsum
  simp only [mulAdd, isNaN_eq_false (isFinite_ofNat ha), isNaN_eq_false (isFinite_ofNat hb),
    isNaN_eq_false (isFinite_ofNat hc), isInfinite_eq_false (isFinite_ofNat ha),
    isInfinite_eq_false (isFinite_ofNat hb), isInfinite_eq_false (isFinite_ofNat hc), Bool.or_self,
    Bool.false_eq_true, ↓reduceIte, negative_ofNat, bne_self_eq_false, Bool.and_self,
    signedUnits_ofNat ha, signedUnits_ofNat hb, signedUnits_ofNat hc, hsum]

end Binary

/-- Single precision holds the numbers below `2 ^ 24`. -/
theorem F32.counts {n : ℕ} (h : n < 2 ^ 24) : Binary.Counts binary32 n := ⟨h, by decide⟩

end NNIS
