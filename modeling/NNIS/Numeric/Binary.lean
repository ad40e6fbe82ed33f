import Mathlib.Data.Nat.Log
import Mathlib.Tactic.Ring
import Mathlib.Tactic.Linarith

/-!
# Binary interchange formats

A floating-point word of a format with `e` exponent bits and `f` fraction bits is a sign and a
*magnitude pattern*, the `e + f` bits after the sign read as a natural number. Patterns are
ordered as the magnitudes they encode, so comparisons of words are comparisons of patterns. Every
finite magnitude is a natural multiple `units p` of the smallest positive one, `2 ^ (-point)`, and
arithmetic is stated on these multiples: `round n d` is the pattern of `n / d` smallest positive
magnitudes, rounded to nearest with ties to even.

## Main definitions

* `Format`, `Format.infinity`, `Format.point`.
* `Format.units` — the value of a magnitude pattern.
* `Format.round` — the pattern nearest to a nonnegative fraction.
* `Binary` — the words of a format, with their classification, comparison and arithmetic.

## Main results

* `Format.round_le` — a fraction is not rounded above a representable bound of it.
* `Binary.isFinite_div` — a quotient by a divisor of magnitude at least one is finite.
-/

set_option autoImplicit false

namespace NNIS

/-- A binary interchange format. -/
structure Format where
  exponentBits : ℕ
  fractionBits : ℕ
  exponentBits_pos : 0 < exponentBits
  fractionBits_pos : 0 < fractionBits

namespace Format

variable (fmt : Format)

/-- The number of magnitude patterns. -/
def patterns : ℕ := 2 ^ (fmt.exponentBits + fmt.fractionBits)

/-- The magnitude pattern of the infinities; larger patterns are not numbers. -/
def infinity : ℕ := (2 ^ fmt.exponentBits - 1) * 2 ^ fmt.fractionBits

/-- The smallest positive magnitude is `2 ^ (-point)`. -/
def point : ℕ := 2 ^ (fmt.exponentBits - 1) - 2 + fmt.fractionBits

/-- The value of a finite magnitude pattern, in smallest positive magnitudes. -/
def units (p : ℕ) : ℕ :=
  if p < 2 ^ fmt.fractionBits then p
  else (2 ^ fmt.fractionBits + p % 2 ^ fmt.fractionBits) * 2 ^ (p / 2 ^ fmt.fractionBits - 1)

/-- The integer nearest to `n / d`, the even one of two. -/
def nearestEven (n d : ℕ) : ℕ :=
  if 2 * (n % d) < d then n / d
  else if d < 2 * (n % d) then n / d + 1
  else n / d + n / d % 2

/-- The magnitude pattern nearest to `n / d` smallest positive magnitudes. A pattern is a block of
`2 ^ f` consecutive multiples of a power of two, so the power is read off the quotient and the
multiple is rounded; a multiple rounded up to the next power of two carries into the next block. -/
def round (n d : ℕ) : ℕ :=
  let shift := (n / d).log2 - fmt.fractionBits
  min (shift * 2 ^ fmt.fractionBits + nearestEven n (d * 2 ^ shift)) fmt.infinity

theorem nearestEven_le {n d m : ℕ} (hd : 0 < d) (h : n ≤ m * d) : nearestEven n d ≤ m := by
  have hn : n = d * (n / d) + n % d := (Nat.div_add_mod n d).symm
  have hr : n % d < d := Nat.mod_lt n hd
  have hq : n / d ≤ m := Nat.div_le_of_le_mul (by rwa [Nat.mul_comm])
  rcases hq.eq_or_lt with hq | hq
  · have hr0 : n % d = 0 := by
      have hdm : d * m = m * d := Nat.mul_comm d m
      rw [hq] at hn
      omega
    simp only [nearestEven, hr0, mul_zero, hd, ↓reduceIte, hq, le_refl]
  · unfold nearestEven
    split_ifs <;> omega

/-- A fraction is not rounded above a magnitude that bounds it. -/
theorem round_le {n d p : ℕ} (hd : 0 < d) (h : n ≤ fmt.units p * d) : fmt.round n d ≤ p := by
  set F := 2 ^ fmt.fractionBits with hF
  have hF0 : 0 < F := Nat.two_pow_pos _
  set q := n / d with hq
  set s := q.log2 - fmt.fractionBits with hs
  have hqu : q ≤ fmt.units p := Nat.div_le_of_le_mul (by rwa [Nat.mul_comm])
  -- The quotient has at most `f + 1` bits above the power of two that is read off it.
  have hqs : q < 2 * F * 2 ^ s := by
    have h1 : q < 2 ^ (q.log2 + 1) := Nat.lt_log2_self
    have h2 : q.log2 + 1 ≤ 1 + fmt.fractionBits + s := by omega
    calc q < 2 ^ (q.log2 + 1) := h1
      _ ≤ 2 ^ (1 + fmt.fractionBits + s) := Nat.pow_le_pow_right (by decide) h2
      _ = 2 * F * 2 ^ s := by rw [pow_add, pow_add, pow_one]
  have hns : n ≤ 2 * F * (d * 2 ^ s) := by
    have h1 : n < (q + 1) * d := Nat.lt_mul_of_div_lt (Nat.lt_succ_self _) hd
    calc n ≤ (q + 1) * d := h1.le
      _ ≤ 2 * F * 2 ^ s * d := Nat.mul_le_mul_right d hqs
      _ = 2 * F * (d * 2 ^ s) := by ring
  have hds : 0 < d * 2 ^ s := Nat.mul_pos hd (Nat.two_pow_pos s)
  refine (min_le_left _ _).trans ?_
  change s * F + nearestEven n (d * 2 ^ s) ≤ p
  by_cases hsub : p < F
  · -- A subnormal bound: nothing is shifted out.
    have hup : fmt.units p = p := by rw [units, ← hF, if_pos hsub]
    have hs0 : s = 0 := by
      rcases Nat.eq_zero_or_pos q with h0 | h0
      · simp only [hs, h0, Nat.log2_zero, Nat.zero_sub]
      · have h1 : q.log2 < fmt.fractionBits := (Nat.log2_lt h0.ne').2 (by omega)
        omega
    rw [hs0, Nat.zero_mul, Nat.zero_add, pow_zero, Nat.mul_one]
    exact nearestEven_le hd (hup ▸ h)
  · set b := p / F - 1 with hb
    have hup : fmt.units p = (F + p % F) * 2 ^ b := by rw [units, ← hF, if_neg hsub]
    have hpF : p = F * (p / F) + p % F := (Nat.div_add_mod p F).symm
    have hp1 : 1 ≤ p / F := (Nat.one_le_div_iff hF0).2 (by omega)
    have hpb : p = (b + 1) * F + p % F := by
      rw [hb, Nat.sub_add_cancel hp1, Nat.mul_comm]
      exact hpF
    have hpm : p % F < F := Nat.mod_lt p hF0
    have hsb : s ≤ b := by
      rcases Nat.eq_zero_or_pos q with h0 | h0
      · simp only [hs, h0, Nat.log2_zero, Nat.zero_sub, Nat.zero_le]
      · have h1 : q < 2 ^ (1 + fmt.fractionBits + b) := by
          calc q ≤ (F + p % F) * 2 ^ b := hup ▸ hqu
            _ < 2 * F * 2 ^ b := Nat.mul_lt_mul_of_pos_right (by omega) (Nat.two_pow_pos b)
            _ = 2 ^ (1 + fmt.fractionBits + b) := by rw [pow_add, pow_add, pow_one]
        have h2 : q.log2 < 1 + fmt.fractionBits + b := (Nat.log2_lt h0.ne').2 h1
        omega
    rcases hsb.eq_or_lt with hsb | hsb
    · -- Both in one block: the bound is one of the multiples between which the fraction lies.
      have h1 : nearestEven n (d * 2 ^ s) ≤ F + p % F := by
        refine nearestEven_le hds ?_
        calc n ≤ fmt.units p * d := h
          _ = (F + p % F) * (d * 2 ^ s) := by rw [hup, hsb]; ring
      calc s * F + nearestEven n (d * 2 ^ s) ≤ s * F + (F + p % F) := by omega
        _ = (b + 1) * F + p % F := by rw [hsb]; ring
        _ = p := hpb.symm
    · -- The fraction lies in an earlier block; rounding up reaches at most the next one.
      have h1 : nearestEven n (d * 2 ^ s) ≤ 2 * F := nearestEven_le hds hns
      have h2 : (s + 2) * F ≤ (b + 1) * F := Nat.mul_le_mul_right F (by omega)
      calc s * F + nearestEven n (d * 2 ^ s) ≤ s * F + 2 * F := by omega
        _ = (s + 2) * F := by ring
        _ ≤ (b + 1) * F := h2
        _ ≤ p := by omega

theorem round_le_infinity (n d : ℕ) : fmt.round n d ≤ fmt.infinity := min_le_right _ _

theorem patterns_eq : fmt.patterns = fmt.infinity + 2 ^ fmt.fractionBits := by
  have h : 2 ^ fmt.exponentBits - 1 + 1 = 2 ^ fmt.exponentBits :=
    Nat.sub_add_cancel Nat.one_le_two_pow
  rw [patterns, infinity, pow_add, ← h, Nat.add_sub_cancel, Nat.succ_mul]

theorem infinity_lt_patterns : fmt.infinity < fmt.patterns := by
  rw [patterns_eq]
  exact Nat.lt_add_of_pos_right (Nat.two_pow_pos _)

theorem quiet_lt_patterns : fmt.infinity + 2 ^ (fmt.fractionBits - 1) < fmt.patterns := by
  rw [patterns_eq]
  have h : 2 ^ (fmt.fractionBits - 1) < 2 ^ fmt.fractionBits :=
    Nat.pow_lt_pow_right (by decide) (Nat.sub_lt fmt.fractionBits_pos Nat.one_pos)
  omega

end Format

/-- A word of a format: a sign and a magnitude pattern. -/
structure Binary (fmt : Format) where
  negative : Bool
  magnitude : ℕ
  magnitude_lt : magnitude < fmt.patterns
  deriving DecidableEq

namespace Binary

variable {fmt fmt' : Format}

/-! ### Words and their bits -/

/-- The word whose bits, read as a number, are `w`. -/
def ofBits (w : ℕ) : Binary fmt where
  negative := decide (w / fmt.patterns % 2 = 1)
  magnitude := w % fmt.patterns
  magnitude_lt := Nat.mod_lt _ (Nat.two_pow_pos _)

/-- The bits of a word, read as a number. -/
def toBits (x : Binary fmt) : ℕ := x.negative.toNat * fmt.patterns + x.magnitude

/-- The zero of a given sign. -/
def zero (negative : Bool) : Binary fmt where
  negative := negative
  magnitude := 0
  magnitude_lt := Nat.two_pow_pos _

/-- The infinity of a given sign. -/
def infinite (negative : Bool) : Binary fmt where
  negative := negative
  magnitude := fmt.infinity
  magnitude_lt := fmt.infinity_lt_patterns

/-- The quiet not-a-number without payload. -/
def notANumber : Binary fmt where
  negative := false
  magnitude := fmt.infinity + 2 ^ (fmt.fractionBits - 1)
  magnitude_lt := fmt.quiet_lt_patterns

instance : Inhabited (Binary fmt) := ⟨zero false⟩

@[simp] theorem ofBits_toBits (x : Binary fmt) : ofBits x.toBits = x := by
  obtain ⟨negative, magnitude, h⟩ := x
  have h0 : 0 < fmt.patterns := Nat.two_pow_pos _
  simp only [toBits, ofBits, Nat.mul_comm negative.toNat, Nat.mul_add_div h0, Nat.div_eq_of_lt h,
    Nat.mul_add_mod, Nat.mod_eq_of_lt h, Nat.add_zero, mk.injEq, and_true]
  cases negative <;> rfl

theorem toBits_lt (x : Binary fmt) : x.toBits < 2 * fmt.patterns := by
  have h := x.magnitude_lt
  have hn : x.negative.toNat ≤ 1 := Bool.toNat_le _
  have hm : x.negative.toNat * fmt.patterns ≤ 1 * fmt.patterns := Nat.mul_le_mul_right _ hn
  rw [toBits]
  omega

/-! ### Classification and comparison -/

/-- Not a number. -/
def isNaN (x : Binary fmt) : Bool := decide (fmt.infinity < x.magnitude)

/-- An infinity. -/
def isInfinite (x : Binary fmt) : Bool := decide (x.magnitude = fmt.infinity)

/-- Neither infinite nor not a number. -/
def isFinite (x : Binary fmt) : Bool := decide (x.magnitude < fmt.infinity)

/-- A zero of either sign. -/
def isZero (x : Binary fmt) : Bool := decide (x.magnitude = 0)

/-- The position of a number in the order of numbers; the two zeros share one position. -/
def key (x : Binary fmt) : ℤ := if x.negative then -x.magnitude else x.magnitude

/-- `x < y`, false when either is not a number. -/
def lt (x y : Binary fmt) : Bool := !x.isNaN && !y.isNaN && decide (x.key < y.key)

/-- `x ≤ y`, false when either is not a number. -/
def le (x y : Binary fmt) : Bool := !x.isNaN && !y.isNaN && decide (x.key ≤ y.key)

/-- The word without its sign. -/
def abs (x : Binary fmt) : Binary fmt := { x with negative := false }

/-- The word with its sign reversed. -/
def neg (x : Binary fmt) : Binary fmt := { x with negative := !x.negative }

/-- The greater of two words, the other one when one is not a number. -/
def max (x y : Binary fmt) : Binary fmt :=
  if x.isNaN then y else if y.isNaN then x else if x.lt y then y else x

theorem isNaN_eq_false {x : Binary fmt} (h : x.isFinite = true) : x.isNaN = false := by
  simp only [isFinite, isNaN, decide_eq_true_eq, decide_eq_false_iff_not] at h ⊢
  omega

theorem isInfinite_eq_false {x : Binary fmt} (h : x.isFinite = true) : x.isInfinite = false := by
  simp only [isFinite, isInfinite, decide_eq_true_eq, decide_eq_false_iff_not] at h ⊢
  omega

/-- On finite words the comparison is the order of their positions. -/
theorem lt_iff_key_lt {x y : Binary fmt} (hx : x.isFinite = true) (hy : y.isFinite = true) :
    x.lt y = true ↔ x.key < y.key := by
  simp only [lt, isNaN_eq_false hx, isNaN_eq_false hy, Bool.not_false, Bool.true_and,
    decide_eq_true_eq]

theorem lt_eq {x y : Binary fmt} (hx : x.isNaN = false) (hy : y.isNaN = false) :
    x.lt y = decide (x.key < y.key) := by
  rw [lt, hx, hy, Bool.not_false, Bool.true_and, Bool.true_and]

theorem le_eq {x y : Binary fmt} (hx : x.isNaN = false) (hy : y.isNaN = false) :
    x.le y = decide (x.key ≤ y.key) := by
  rw [le, hx, hy, Bool.not_false, Bool.true_and, Bool.true_and]

/-- A comparison that decides between equal numbers by a condition. -/
theorem lt_or_le_iff {x y : Binary fmt} (hx : x.isNaN = false) (hy : y.isNaN = false) {p : Prop}
    [Decidable p] : (y.lt x || (x.le y && y.le x && decide p)) = true ↔
      y.key < x.key ∨ y.key = x.key ∧ p := by
  rw [lt_eq hy hx, le_eq hx hy, le_eq hy hx]
  simp only [Bool.or_eq_true, Bool.and_eq_true, decide_eq_true_eq]
  constructor
  · rintro (hlt | ⟨⟨hle, hge⟩, hp⟩)
    · exact .inl hlt
    · exact .inr ⟨le_antisymm hge hle, hp⟩
  · rintro (hlt | ⟨heq, hp⟩)
    · exact .inl hlt
    · exact .inr ⟨⟨heq.ge, heq.le⟩, hp⟩

/-- Negative infinity is the least number. -/
theorem key_infinite_le {x : Binary fmt} (hx : x.isNaN = false) :
    (infinite true : Binary fmt).key ≤ x.key := by
  have hmagnitude : x.magnitude ≤ fmt.infinity := Nat.le_of_not_lt (of_decide_eq_false hx)
  change -(fmt.infinity : ℤ) ≤ x.key
  rw [key]
  split_ifs <;> omega

/-- No other number compares equal to negative infinity. -/
theorem eq_infinite_of_key {x : Binary fmt} (hx : x.key = (infinite true : Binary fmt).key) :
    x = infinite true := by
  have hpos : 0 < fmt.infinity :=
    Nat.mul_pos (Nat.sub_pos_of_lt (Nat.one_lt_two_pow fmt.exponentBits_pos.ne'))
      (Nat.two_pow_pos _)
  obtain ⟨negative, magnitude, h⟩ := x
  change (if negative = true then -(magnitude : ℤ) else magnitude) = -(fmt.infinity : ℤ) at hx
  cases negative
  · simp only [Bool.false_eq_true, if_false] at hx
    omega
  · simp only [if_true, neg_inj, Nat.cast_inj] at hx
    subst hx
    rfl

@[simp] theorem isFinite_abs (x : Binary fmt) : x.abs.isFinite = x.isFinite := rfl

@[simp] theorem negative_abs (x : Binary fmt) : x.abs.negative = false := rfl

theorem isFinite_max {x y : Binary fmt} (hx : x.isFinite = true) (hy : y.isFinite = true) :
    (x.max y).isFinite = true := by
  unfold max
  split_ifs <;> assumption

theorem negative_max {x y : Binary fmt} (hx : x.negative = false) (hy : y.negative = false) :
    (x.max y).negative = false := by
  unfold max
  split_ifs <;> assumption

/-! ### Arithmetic -/

/-- The value of a finite word without its sign, in smallest positive magnitudes. -/
def units (x : Binary fmt) : ℕ := fmt.units x.magnitude

/-- The word of a given sign nearest to `n / d` smallest positive magnitudes. -/
def rounded (negative : Bool) (n d : ℕ) : Binary fmt where
  negative := negative
  magnitude := fmt.round n d
  magnitude_lt := (fmt.round_le_infinity n d).trans_lt fmt.infinity_lt_patterns

/-- The product, rounded once. -/
def mul (x y : Binary fmt) : Binary fmt :=
  if x.isNaN || y.isNaN then notANumber
  else if x.isInfinite || y.isInfinite then
    if x.isZero || y.isZero then notANumber else infinite (xor x.negative y.negative)
  else rounded (xor x.negative y.negative) (x.units * y.units) (2 ^ fmt.point)

/-- The value of a finite word, in smallest positive magnitudes. -/
def signedUnits (x : Binary fmt) : ℤ := if x.negative then -x.units else x.units

/-- The word nearest to `n / d` smallest positive magnitudes; an exact zero has the given sign. -/
def roundedSum (negative : Bool) (n : ℤ) (d : ℕ) : Binary fmt :=
  if n = 0 then zero negative else rounded (decide (n < 0)) n.natAbs d

/-- The sum, rounded once. -/
def add (x y : Binary fmt) : Binary fmt :=
  if x.isNaN || y.isNaN then notANumber
  else if x.isInfinite then
    if y.isInfinite && xor x.negative y.negative then notANumber else x
  else if y.isInfinite then y
  else roundedSum (x.negative && y.negative) (x.signedUnits + y.signedUnits) 1

/-- The difference, rounded once. -/
def sub (x y : Binary fmt) : Binary fmt := x.add y.neg

/-- The word nearest to a natural number. -/
def ofNat (n : ℕ) : Binary fmt := rounded false (n * 2 ^ fmt.point) 1

/-- The product of the first two plus the third, rounded once. -/
def mulAdd (x y z : Binary fmt) : Binary fmt :=
  let negative := xor x.negative y.negative
  if x.isNaN || y.isNaN || z.isNaN then notANumber
  else if x.isInfinite || y.isInfinite then
    if x.isZero || y.isZero || (z.isInfinite && xor negative z.negative) then notANumber
    else infinite negative
  else if z.isInfinite then z
  else
    roundedSum (negative && z.negative)
      (x.signedUnits * y.signedUnits + z.signedUnits * 2 ^ fmt.point) (2 ^ fmt.point)

/-- The quotient, rounded once. -/
def div (x y : Binary fmt) : Binary fmt :=
  if x.isNaN || y.isNaN then notANumber
  else if x.isInfinite then
    if y.isInfinite then notANumber else infinite (xor x.negative y.negative)
  else if y.isInfinite then zero (xor x.negative y.negative)
  else if y.isZero then
    if x.isZero then notANumber else infinite (xor x.negative y.negative)
  else rounded (xor x.negative y.negative) (x.units * 2 ^ fmt.point) y.units

/-- The value of a word in another format, rounded once. -/
def convert (fmt' : Format) (x : Binary fmt) : Binary fmt' :=
  if x.isNaN then notANumber
  else if x.isInfinite then infinite x.negative
  else rounded x.negative (x.units * 2 ^ fmt'.point) (2 ^ fmt.point)

/-- A finite word divided by a finite one of magnitude at least one is a rounded fraction. -/
theorem div_eq_rounded {x y : Binary fmt} (hx : x.isFinite = true) (hy : y.isFinite = true)
    (hone : 2 ^ fmt.point ≤ y.units) :
    x.div y = rounded (xor x.negative y.negative) (x.units * 2 ^ fmt.point) y.units := by
  have hy0 : y.isZero = false := by
    simp only [isZero, decide_eq_false_iff_not]
    intro h0
    have hpos : 0 < y.units := (Nat.two_pow_pos _).trans_le hone
    simp only [units, h0, Format.units, Nat.two_pow_pos, ↓reduceIte, lt_self_iff_false] at hpos
  simp only [div, isNaN_eq_false hx, isNaN_eq_false hy, isInfinite_eq_false hx,
    isInfinite_eq_false hy, hy0, Bool.or_self, Bool.false_eq_true, ↓reduceIte]

/-- Dividing a finite word by a finite one of magnitude at least one gives a finite word. -/
theorem isFinite_div {x y : Binary fmt} (hx : x.isFinite = true) (hy : y.isFinite = true)
    (hone : 2 ^ fmt.point ≤ y.units) : (x.div y).isFinite = true := by
  rw [div_eq_rounded hx hy hone]
  have h : fmt.round (x.units * 2 ^ fmt.point) y.units ≤ x.magnitude :=
    fmt.round_le ((Nat.two_pow_pos _).trans_le hone) (Nat.mul_le_mul_left x.units hone)
  simp only [isFinite, rounded, decide_eq_true_eq] at hx ⊢
  exact decide_eq_true (h.trans_lt hx)

theorem negative_div {x y : Binary fmt} (hx : x.isFinite = true) (hy : y.isFinite = true)
    (hone : 2 ^ fmt.point ≤ y.units) : (x.div y).negative = xor x.negative y.negative := by
  rw [div_eq_rounded hx hy hone]
  rfl

end Binary

/-! ### The two formats in use -/

/-- Single precision. -/
abbrev binary32 : Format := ⟨8, 23, by decide, by decide⟩

/-- Double precision. -/
abbrev binary64 : Format := ⟨11, 52, by decide, by decide⟩

/-- Single-precision words. -/
abbrev F32 := Binary binary32

/-- Double-precision words. -/
abbrev F64 := Binary binary64

end NNIS
