import Mathlib.Data.Rat.Defs
import Mathlib.Algebra.Order.Field.Basic
import Mathlib.Algebra.Order.Field.Rat
import Mathlib.Data.Rat.Cast.Order
import NNIS.Numeric.Quotient

/-!
# Rounding is to the nearest value

The value of a rounded fraction is the nearest multiple of a power of two: of one, or of a power
that is small against the fraction. At equal distance the even multiple is taken.

## Main definitions

* `Format.shift` — the exponent of the power of two whose multiples a fraction is rounded to.
* `Binary.value` — the value of a finite word.

## Main results

* `Format.nearestEven_near` — the nearest multiple.
* `Format.units_round_eq`, `Format.units_round_exact` — the value of a rounded fraction.
* `F32.Digits.dvd` — large values are multiples of powers of two.
* `F32.abs_value`, `F64.value_eq` — values by smallest positive magnitudes.
-/

set_option autoImplicit false

namespace NNIS

namespace Format

variable (fmt : Format)

/-- The exponent of the power of two whose multiples a fraction is rounded to. -/
def shift (n d : ℕ) : ℕ := (n / d).log2 - fmt.fractionBits

/-- The integer nearest to a fraction, the even one of two. -/
theorem nearestEven_near (n : ℕ) {d : ℕ} (hd : 0 < d) :
    2 * n ≤ (2 * nearestEven n d + 1) * d ∧ (2 * nearestEven n d) * d ≤ 2 * n + d ∧
      ((2 * n = (2 * nearestEven n d + 1) * d ∨ (2 * nearestEven n d) * d = 2 * n + d) →
        nearestEven n d % 2 = 0) := by
  have hn : d * (n / d) + n % d = n := Nat.div_add_mod n d
  have hr : n % d < d := Nat.mod_lt n hd
  rw [Nat.mul_comm d] at hn
  have hsplit : ∀ m, (2 * m + 1) * d = 2 * (m * d) + d := fun m => by ring
  have hdouble : ∀ m, 2 * m * d = 2 * (m * d) := fun m => Nat.mul_assoc ..
  rw [hsplit, hdouble]
  rw [nearestEven]
  split_ifs with hlow hhigh
  · generalize n / d * d = q at hn ⊢
    omega
  · have hsucc : (n / d + 1) * d = n / d * d + d := Nat.succ_mul ..
    rw [hsucc]
    generalize n / d * d = q at hn ⊢
    omega
  · rcases Nat.mod_two_eq_zero_or_one (n / d) with heven | hodd
    · rw [heven, Nat.add_zero]
      generalize n / d * d = q at hn ⊢
      omega
    · have hsucc : (n / d + 1) * d = n / d * d + d := Nat.succ_mul ..
      rw [hodd, hsucc]
      generalize n / d * d = q at hn ⊢
      omega

variable {fmt}

/-- A fraction is rounded to a multiple of the power of two that is read off it. -/
theorem units_round_eq {n d : ℕ} (hd : 0 < d) (h : fmt.round n d < fmt.infinity) :
    fmt.units (fmt.round n d) =
      nearestEven n (d * 2 ^ fmt.shift n d) * 2 ^ fmt.shift n d := by
  set F := 2 ^ fmt.fractionBits with hF
  have hF0 : 0 < F := Nat.two_pow_pos _
  set s := fmt.shift n d with hs
  have hround : fmt.round n d = s * F + nearestEven n (d * 2 ^ s) := by
    have hmin : fmt.round n d = min (s * F + nearestEven n (d * 2 ^ s)) fmt.infinity := rfl
    rw [hmin] at h ⊢
    exact Nat.min_eq_left (Nat.le_of_not_lt fun hlt => by
      rw [Nat.min_eq_right hlt.le] at h
      exact Nat.lt_irrefl _ h)
  have hds : 0 < d * 2 ^ s := Nat.mul_pos hd (Nat.two_pow_pos s)
  -- The multiple has at most one digit more than the fraction of a word.
  have hhigh : nearestEven n (d * 2 ^ s) ≤ 2 * F := by
    refine nearestEven_le hds ?_
    have hlog : n / d < 2 ^ (fmt.fractionBits + 1 + s) := by
      rcases Nat.eq_zero_or_pos (n / d) with h0 | h0
      · rw [h0]
        exact Nat.two_pow_pos _
      · refine (Nat.log2_lt h0.ne').1 ?_
        rw [hs, shift]
        omega
    have hlt : n < (n / d + 1) * d := Nat.lt_mul_of_div_lt (Nat.lt_succ_self _) hd
    calc n ≤ (n / d + 1) * d := hlt.le
      _ ≤ 2 ^ (fmt.fractionBits + 1 + s) * d := Nat.mul_le_mul_right d hlog
      _ = 2 * F * (d * 2 ^ s) := by rw [Nat.pow_add, Nat.pow_succ, hF]; ring
  have hcarry : fmt.units (s * F + 2 * F) = 2 * F * 2 ^ s := by
    have hblock : fmt.units ((s + 1) * F + F) = F * 2 ^ (s + 1) :=
      units_block (Nat.le_refl _) (by omega)
    rw [show s * F + 2 * F = (s + 1) * F + F by ring, hblock, Nat.pow_succ]
    ring
  rw [hround]
  rcases hhigh.eq_or_lt with htop | htop
  · rw [htop, hcarry]
  rcases Nat.eq_zero_or_pos s with h0 | hpos
  · rw [h0] at htop ⊢
    rw [Nat.zero_mul, Nat.zero_add, Nat.pow_zero, Nat.mul_one, Nat.mul_one]
    rw [Nat.pow_zero, Nat.mul_one] at htop
    rcases Nat.lt_or_ge (nearestEven n d) F with hsub | hnormal
    · rw [units, if_pos hsub]
    · have hblock : fmt.units (0 * F + nearestEven n d) = nearestEven n d * 2 ^ 0 :=
        units_block hnormal htop
      rwa [Nat.zero_mul, Nat.zero_add, Nat.pow_zero, Nat.mul_one] at hblock
  · refine units_block ?_ htop
    refine Nat.le_trans ?_ (le_nearestEven n _)
    have hne : n / d ≠ 0 := fun h0 => by
      rw [hs, shift, h0, Nat.log2_zero, Nat.zero_sub] at hpos
      exact Nat.lt_irrefl 0 hpos
    rw [← Nat.div_div_eq_div_mul, Nat.le_div_iff_mul_le (Nat.two_pow_pos s), ← Nat.pow_add]
    refine le_trans (Nat.pow_le_pow_right Nat.two_pos ?_) (Nat.log2_self_le hne)
    rw [hs, shift] at hpos ⊢
    omega

/-- A number of few digits that is rounded to a finite word is rounded to itself. -/
theorem units_round_exact {c j d : ℕ} (hc : c < 2 ^ (fmt.fractionBits + 1)) (hd : 0 < d)
    (h : fmt.round (c * 2 ^ j * d) d < fmt.infinity) :
    fmt.units (fmt.round (c * 2 ^ j * d) d) = c * 2 ^ j := by
  rw [units_round_eq hd h]
  set t := fmt.shift (c * 2 ^ j * d) d with ht
  have hle : t ≤ j := by
    rw [ht, shift, Nat.mul_div_cancel _ hd]
    rcases Nat.eq_zero_or_pos (c * 2 ^ j) with h0 | h0
    · rw [h0, Nat.log2_zero, Nat.zero_sub]
      exact Nat.zero_le j
    · have hlog : (c * 2 ^ j).log2 < fmt.fractionBits + 1 + j := by
        refine (Nat.log2_lt h0.ne').2 ?_
        rw [Nat.pow_add]
        exact Nat.mul_lt_mul_of_pos_right hc (Nat.two_pow_pos j)
      omega
  have hsplit : c * 2 ^ j = c * 2 ^ (j - t) * 2 ^ t := by
    rw [Nat.mul_assoc, ← Nat.pow_add, Nat.sub_add_cancel hle]
  have hmultiple : c * 2 ^ j * d = c * 2 ^ (j - t) * (d * 2 ^ t) := by
    rw [hsplit]
    ring
  rw [hmultiple, nearestEven_mul_self _ (Nat.mul_pos hd (Nat.two_pow_pos t)), ← hsplit]

/-- The power of two that is read off a fraction is one or small against the fraction. -/
theorem shift_le (n d : ℕ) :
    fmt.shift n d = 0 ∨ 2 ^ (fmt.fractionBits + fmt.shift n d) ≤ n / d := by
  rcases Nat.eq_zero_or_pos (fmt.shift n d) with h0 | hpos
  · exact Or.inl h0
  · have hne : n / d ≠ 0 := fun h0 => by
      rw [shift, h0, Nat.log2_zero, Nat.zero_sub] at hpos
      exact Nat.lt_irrefl 0 hpos
    refine Or.inr (Nat.le_trans (Nat.pow_le_pow_right Nat.two_pos ?_) (Nat.log2_self_le hne))
    rw [shift] at hpos ⊢
    omega

/-- The power of two that is read off a fraction between two powers of two. -/
theorem shift_eq {n d t : ℕ} (hlow : 2 ^ (fmt.fractionBits + t) ≤ n / d)
    (hhigh : n / d < 2 ^ (fmt.fractionBits + t + 1)) : fmt.shift n d = t := by
  have hne : n / d ≠ 0 := (Nat.lt_of_lt_of_le (Nat.two_pow_pos _) hlow).ne'
  have hlog : (n / d).log2 = fmt.fractionBits + t := (Nat.log2_eq_iff hne).2 ⟨hlow, hhigh⟩
  rw [shift, hlog, Nat.add_sub_cancel_left]

theorem shift_eq_zero {n d : ℕ} (h : n / d < 2 ^ (fmt.fractionBits + 1)) : fmt.shift n d = 0 := by
  rcases Nat.eq_zero_or_pos (n / d) with h0 | h0
  · rw [shift, h0, Nat.log2_zero, Nat.zero_sub]
  · have hlog := (Nat.log2_lt h0.ne').2 h
    rw [shift]
    omega

end Format

/-- A value of single precision that reaches a power of two is a multiple of a smaller one. -/
theorem F32.Digits.dvd {v i : ℕ} (hv : F32.Digits v) (h : 2 ^ (24 + i) ≤ v) : 2 ^ (i + 1) ∣ v := by
  obtain ⟨c, j, hc, -, rfl⟩ := hv
  refine Nat.dvd_mul_left_of_dvd (Nat.pow_dvd_pow 2 ?_) c
  by_contra hlt
  have hle : 2 ^ j ≤ 2 ^ i := Nat.pow_le_pow_right Nat.two_pos (by omega)
  have hbelow : c * 2 ^ j < 2 ^ 24 * 2 ^ i := by
    calc c * 2 ^ j ≤ c * 2 ^ i := Nat.mul_le_mul_left c hle
      _ < 2 ^ 24 * 2 ^ i := Nat.mul_lt_mul_of_pos_right hc (Nat.two_pow_pos i)
  rw [Nat.pow_add] at h
  omega

namespace Binary

variable {fmt : Format} (negative : Bool) (n d : ℕ)

theorem negative_rounded : (rounded negative n d : Binary fmt).negative = negative := rfl

theorem units_rounded_eq :
    (rounded negative n d : Binary fmt).units = fmt.units (fmt.round n d) := rfl

theorem isFinite_rounded_iff :
    (rounded negative n d : Binary fmt).isFinite = true ↔ fmt.round n d < fmt.infinity := by
  rw [isFinite, decide_eq_true_eq, rounded]

end Binary

/-- The value of a finite word. -/
def Binary.value {fmt : Format} (x : Binary fmt) : ℚ := x.signedUnits / 2 ^ fmt.point

/-- The magnitude of a word of single precision. -/
theorem F32.abs_value (x : F32) : |x.value| = (x.units : ℚ) / 2 ^ 149 := by
  have hpos : (0 : ℚ) < 2 ^ 149 := pow_pos two_pos 149
  have hpoint : binary32.point = 149 := rfl
  rw [Binary.value, Binary.signedUnits, hpoint, abs_div, abs_of_pos hpos]
  cases x.negative with
  | false => rw [if_neg Bool.false_ne_true, Int.cast_natCast, Nat.abs_cast]
  | true => rw [if_pos rfl, Int.cast_neg, Int.cast_natCast, abs_neg, Nat.abs_cast]

/-- The value of a word of double precision by the smallest positive magnitudes of single
precision. -/
theorem F64.value_eq {x : F64} {s : ℕ} (hsign : x.negative = false)
    (hunits : x.units = s * 2 ^ 925) : x.value = (s : ℚ) / 2 ^ 149 := by
  have hpoint : binary64.point = 149 + 925 := rfl
  rw [Binary.value, Binary.signedUnits, hsign, if_neg Bool.false_ne_true, hunits, hpoint, pow_add,
    Int.cast_natCast, Nat.cast_mul, Nat.cast_pow, Nat.cast_ofNat]
  exact mul_div_mul_right _ _ (pow_ne_zero 925 two_ne_zero)

end NNIS
