import Mathlib.Order.Monotone.Basic
import Mathlib.Tactic.Ring
import NNIS.Numeric.Rounding

/-!
# Bounds that survive rounding

Values of patterns grow with the patterns, and rounding respects representable bounds from both
sides. So an operation whose exact result is bounded by a finite pattern does not overflow, and
neither does a long sum of terms that are small against it.

## Main results

* `Format.units_mono`, `Format.le_round` — order of patterns and of values.
* `Format.units_add_le` — the distance of neighbouring patterns.
* `Binary.magnitude_add_le`, `Binary.magnitude_sub_le`, `Binary.magnitude_mul_le`,
  `Binary.magnitude_convert_le` — operations with a bounded result.
* `Binary.one_le_units_ofNat` — a positive natural number is not rounded below one.
* `F32.units_lt_two_pow` — the range of single precision.
-/

set_option autoImplicit false

namespace NNIS

namespace Format

variable {fmt : Format}

variable (fmt) in
/-- The power of two at the start of a block. -/
theorem units_start (s : ℕ) :
    fmt.units ((s + 1) * 2 ^ fmt.fractionBits) = 2 ^ (fmt.fractionBits + s) := by
  have hpos : 0 < 2 ^ fmt.fractionBits := Nat.two_pow_pos _
  rw [Nat.succ_mul, units_block (m := 2 ^ fmt.fractionBits) (Nat.le_refl _) (by omega),
    Nat.pow_add]

theorem units_succ {p : ℕ} (hp : 2 ^ fmt.fractionBits ≤ p) :
    fmt.units (p + 1) = fmt.units p + 2 ^ (p / 2 ^ fmt.fractionBits - 1) := by
  set F := 2 ^ fmt.fractionBits with hF
  have hF0 : 0 < F := Nat.two_pow_pos _
  have hdiv : 1 ≤ p / F := (Nat.one_le_div_iff hF0).2 hp
  have hsplit : p = (p / F - 1) * F + (F + p % F) := by
    have hp' : F * (p / F) + p % F = p := Nat.div_add_mod p F
    have hmul : (p / F - 1) * F + F = p / F * F := by
      rw [← Nat.succ_mul, Nat.succ_eq_add_one, Nat.sub_add_cancel hdiv]
    rw [Nat.mul_comm] at hp'
    omega
  have hmod : p % F < F := Nat.mod_lt p hF0
  have hunits : fmt.units p = (F + p % F) * 2 ^ (p / F - 1) := by
    rw [units, ← hF, if_neg (by omega)]
  rw [hunits]
  rcases Nat.lt_or_ge (p % F + 1) F with hlt | hge
  · have hnext : p + 1 = (p / F - 1) * F + (F + (p % F + 1)) := by omega
    rw [hnext, units_block (by omega) (by omega), ← Nat.add_assoc, Nat.succ_mul]
  · -- The last pattern of a block is followed by the start of the next one.
    have hnext : p + 1 = (p / F - 1 + 1) * F + F := by
      rw [Nat.succ_mul]
      omega
    have hblock : fmt.units ((p / F - 1 + 1) * F + F) = F * 2 ^ (p / F - 1 + 1) :=
      units_block (Nat.le_refl _) (by omega)
    have hle : 2 ^ (p / F - 1) ≤ 2 * F * 2 ^ (p / F - 1) :=
      Nat.le_mul_of_pos_left _ (by omega)
    rw [hnext, hblock, (by omega : F + p % F = 2 * F - 1), Nat.sub_mul, Nat.one_mul,
      Nat.sub_add_cancel hle, Nat.pow_succ]
    ring

theorem units_mono : Monotone fmt.units := by
  refine monotone_nat_of_le_succ fun p => ?_
  rcases Nat.lt_or_ge p (2 ^ fmt.fractionBits) with hlt | hge
  · rw [units, if_pos hlt]
    rcases Nat.lt_or_ge (p + 1) (2 ^ fmt.fractionBits) with hlt' | hge'
    · rw [units, if_pos hlt']
      exact Nat.le_succ p
    · have hstart := units_start fmt 0
      rw [Nat.zero_add, Nat.one_mul, Nat.add_zero] at hstart
      rw [(by omega : p + 1 = 2 ^ fmt.fractionBits), hstart]
      exact hlt.le
  · rw [units_succ hge]
    exact Nat.le_add_right _ _

variable (fmt) in
/-- Patterns beyond the start of a block are as far apart as those of the block. -/
theorem units_add_le {p s : ℕ} (hp : (s + 1) * 2 ^ fmt.fractionBits ≤ p) :
    fmt.units p + 2 ^ s ≤ fmt.units (p + 1) := by
  have hF0 : 0 < 2 ^ fmt.fractionBits := Nat.two_pow_pos _
  have hdiv : s + 1 ≤ p / 2 ^ fmt.fractionBits := (Nat.le_div_iff_mul_le hF0).2 hp
  rw [units_succ ((Nat.le_mul_of_pos_left _ (Nat.succ_pos s)).trans hp)]
  exact Nat.add_le_add_left (Nat.pow_le_pow_right Nat.two_pos (by omega)) _

variable (fmt) in
/-- The values of finite patterns are below the power of two that would follow them. -/
theorem units_lt {p : ℕ} (hp : p < fmt.infinity) (he : 3 ≤ 2 ^ fmt.exponentBits) :
    fmt.units p < 2 ^ (fmt.fractionBits + 2 ^ fmt.exponentBits - 2) := by
  obtain ⟨c, j, hc, hj, hunits⟩ := exists_units_eq hp
  rw [hunits]
  calc c * 2 ^ j < 2 ^ (fmt.fractionBits + 1) * 2 ^ j :=
        Nat.mul_lt_mul_of_pos_right hc (Nat.two_pow_pos j)
    _ = 2 ^ (fmt.fractionBits + 1 + j) := (Nat.pow_add ..).symm
    _ ≤ 2 ^ (fmt.fractionBits + 2 ^ fmt.exponentBits - 2) :=
        Nat.pow_le_pow_right Nat.two_pos (by omega)

theorem le_nearestEven (n d : ℕ) : n / d ≤ nearestEven n d := by
  unfold nearestEven
  split_ifs <;> omega

/-- A fraction is not rounded below a magnitude that it reaches. -/
theorem le_round {n d p : ℕ} (hd : 0 < d) (hp : p ≤ fmt.infinity) (h : fmt.units p * d ≤ n) :
    p ≤ fmt.round n d := by
  set F := 2 ^ fmt.fractionBits with hF
  have hF0 : 0 < F := Nat.two_pow_pos _
  have hq : fmt.units p ≤ n / d := (Nat.le_div_iff_mul_le hd).2 h
  set s := (n / d).log2 - fmt.fractionBits with hs
  refine le_min ?_ hp
  change p ≤ s * F + nearestEven n (d * 2 ^ s)
  refine le_trans ?_ (Nat.add_le_add_left (le_nearestEven n _) _)
  rw [← Nat.div_div_eq_div_mul]
  -- A quotient from which a power is read off fills at least one block of multiples of it.
  have hlarge : 0 < s → F ≤ n / d / 2 ^ s := fun hpos => by
    have hne : n / d ≠ 0 := fun h0 => by
      rw [hs, h0, Nat.log2_zero, Nat.zero_sub] at hpos
      exact Nat.lt_irrefl 0 hpos
    rw [Nat.le_div_iff_mul_le (Nat.two_pow_pos s), hF, ← Nat.pow_add]
    refine le_trans (Nat.pow_le_pow_right Nat.two_pos ?_) (Nat.log2_self_le hne)
    omega
  rcases Nat.lt_or_ge p F with hsub | hnormal
  · rcases Nat.eq_zero_or_pos s with h0 | hpos
    · rw [units, if_pos hsub] at hq
      rw [h0, Nat.zero_mul, Nat.zero_add, Nat.pow_zero, Nat.div_one]
      exact hq
    · have := hlarge hpos
      omega
  · set b := p / F - 1 with hb
    have hdiv : 1 ≤ p / F := (Nat.one_le_div_iff hF0).2 hnormal
    have hmod : p % F < F := Nat.mod_lt p hF0
    have hpb : p = b * F + F + p % F := by
      have hp' : F * (p / F) + p % F = p := Nat.div_add_mod p F
      rw [← Nat.succ_mul, Nat.succ_eq_add_one, hb, Nat.sub_add_cancel hdiv, Nat.mul_comm]
      exact hp'.symm
    have hunits : fmt.units p = (F + p % F) * 2 ^ b := by rw [units, ← hF, if_neg (by omega)]
    rw [hunits] at hq
    have hbs : b ≤ s := by
      have hle : 2 ^ (fmt.fractionBits + b) ≤ n / d := by
        rw [Nat.pow_add]
        exact (Nat.mul_le_mul_right _ (Nat.le_add_right F _)).trans hq
      have hlog : fmt.fractionBits + b ≤ (n / d).log2 :=
        (Nat.le_log2 ((Nat.two_pow_pos _).trans_le hle).ne').2 hle
      omega
    rcases hbs.eq_or_lt with heq | hlt
    · have hmultiple : F + p % F ≤ n / d / 2 ^ s := by
        rw [Nat.le_div_iff_mul_le (Nat.two_pow_pos s), ← heq]
        exact hq
      rw [← heq] at hmultiple ⊢
      omega
    · have hfull := hlarge (by omega)
      have hblocks : (b + 1) * F ≤ s * F := Nat.mul_le_mul_right F hlt
      rw [Nat.succ_mul] at hblocks
      omega

end Format

namespace Binary

variable {fmt fmt' : Format} {x y : Binary fmt} {p : ℕ}

theorem isFinite_of_magnitude_le (h : x.magnitude ≤ p) (hp : p < fmt.infinity) :
    x.isFinite = true :=
  decide_eq_true (h.trans_lt hp)

theorem units_le_of_magnitude_le (h : x.magnitude ≤ p) : x.units ≤ fmt.units p :=
  Format.units_mono h

theorem natAbs_signedUnits (x : Binary fmt) : x.signedUnits.natAbs = x.units := by
  rw [signedUnits]
  split_ifs
  · rw [Int.natAbs_neg, Int.natAbs_natCast]
  · rw [Int.natAbs_natCast]

@[simp] theorem signedUnits_neg (x : Binary fmt) : x.neg.signedUnits = -x.signedUnits := by
  rw [signedUnits, signedUnits]
  cases h : x.negative
  · rw [neg, h]
    rfl
  · rw [neg, h, if_pos rfl, neg_neg]
    rfl

@[simp] theorem isFinite_neg (x : Binary fmt) : x.neg.isFinite = x.isFinite := rfl

theorem signedUnits_nonneg (h : x.negative = false) : 0 ≤ x.signedUnits := by
  rw [signedUnits, h]
  exact Int.natCast_nonneg _

theorem magnitude_rounded_le (negative : Bool) {n d : ℕ} (hd : 0 < d)
    (h : n ≤ fmt.units p * d) : (rounded negative n d : Binary fmt).magnitude ≤ p :=
  fmt.round_le hd h

theorem magnitude_roundedSum_le (negative : Bool) {n : ℤ} {d : ℕ} (hd : 0 < d)
    (h : n.natAbs ≤ fmt.units p * d) : (roundedSum negative n d : Binary fmt).magnitude ≤ p := by
  rw [roundedSum]
  split_ifs
  · exact Nat.zero_le p
  · exact magnitude_rounded_le _ hd h

theorem add_eq_roundedSum (hx : x.isFinite = true) (hy : y.isFinite = true) :
    x.add y = roundedSum (x.negative && y.negative) (x.signedUnits + y.signedUnits) 1 := by
  rw [add, isNaN_eq_false hx, isNaN_eq_false hy, isInfinite_eq_false hx, isInfinite_eq_false hy]
  rfl

/-- A sum whose value is bounded. -/
theorem magnitude_add_le (hx : x.isFinite = true) (hy : y.isFinite = true)
    (h : (x.signedUnits + y.signedUnits).natAbs ≤ fmt.units p) : (x.add y).magnitude ≤ p := by
  rw [add_eq_roundedSum hx hy]
  exact magnitude_roundedSum_le _ Nat.one_pos (by rwa [Nat.mul_one])

/-- A difference whose value is bounded. -/
theorem magnitude_sub_le (hx : x.isFinite = true) (hy : y.isFinite = true)
    (h : (x.signedUnits - y.signedUnits).natAbs ≤ fmt.units p) : (x.sub y).magnitude ≤ p := by
  refine magnitude_add_le hx hy ?_
  rwa [signedUnits_neg, ← sub_eq_add_neg]

theorem negative_add (hx : x.isFinite = true) (hy : y.isFinite = true)
    (hxn : x.negative = false) (hyn : y.negative = false) : (x.add y).negative = false := by
  have hsum : 0 ≤ x.signedUnits + y.signedUnits :=
    Int.add_nonneg (signedUnits_nonneg hxn) (signedUnits_nonneg hyn)
  rw [add_eq_roundedSum hx hy, hxn, Bool.false_and, roundedSum]
  split_ifs
  · rfl
  · exact decide_eq_false (by omega)

theorem mul_eq_rounded (hx : x.isFinite = true) (hy : y.isFinite = true) :
    x.mul y = rounded (xor x.negative y.negative) (x.units * y.units) (2 ^ fmt.point) := by
  rw [mul, isNaN_eq_false hx, isNaN_eq_false hy, isInfinite_eq_false hx, isInfinite_eq_false hy]
  rfl

/-- A product whose value is bounded. -/
theorem magnitude_mul_le (hx : x.isFinite = true) (hy : y.isFinite = true)
    (h : x.units * y.units ≤ fmt.units p * 2 ^ fmt.point) : (x.mul y).magnitude ≤ p := by
  rw [mul_eq_rounded hx hy]
  exact magnitude_rounded_le _ (Nat.two_pow_pos _) h

theorem negative_mul (hx : x.isFinite = true) (hy : y.isFinite = true) :
    (x.mul y).negative = xor x.negative y.negative := by
  rw [mul_eq_rounded hx hy]
  rfl

/-- A conversion whose value is bounded. -/
theorem magnitude_convert_le (hx : x.isFinite = true) {p : ℕ}
    (h : x.units * 2 ^ fmt'.point ≤ fmt'.units p * 2 ^ fmt.point) :
    (x.convert fmt').magnitude ≤ p := by
  rw [convert_eq_rounded hx]
  exact magnitude_rounded_le _ (Nat.two_pow_pos _) h

/-- A word without a sign is not below zero. -/
theorem lt_zero_eq_false (h : x.negative = false) : x.lt (zero false) = false := by
  have hkey : ¬ x.key < (zero false : Binary fmt).key := by
    rw [key, h, key]
    exact fun hlt => absurd hlt (Int.not_lt.2 (Int.natCast_nonneg _))
  rw [lt, decide_eq_false hkey, Bool.and_false]

/-- The sign of a position is the sign of the value. -/
theorem signedUnits_nonneg_of_key (h : 0 ≤ x.key) : 0 ≤ x.signedUnits := by
  cases hx : x.negative
  · exact signedUnits_nonneg hx
  · rw [key, hx, if_pos rfl] at h
    have hzero : x.magnitude = 0 := by omega
    have hunits : x.units = 0 := by
      rw [units, hzero, Format.units, if_pos (Nat.two_pow_pos _)]
    rw [signedUnits, hx, hunits]
    exact Int.le_refl 0

theorem key_neg (x : Binary fmt) : x.neg.key = -x.key := by
  rw [key, key]
  cases h : x.negative
  · rw [neg, h]
    rfl
  · rw [neg, h, if_pos rfl, neg_neg]
    rfl

theorem key_nonneg (h : x.negative = false) : 0 ≤ x.key := by
  rw [key, h]
  exact Int.natCast_nonneg _

theorem key_le_of_le (h : x.le y = true) : x.key ≤ y.key := by
  rw [le, Bool.and_eq_true] at h
  exact of_decide_eq_true h.2

/-- The greater of two words without a sign bounds both magnitudes. -/
theorem magnitude_le_max (hx : x.isFinite = true) (hy : y.isFinite = true)
    (hxn : x.negative = false) (hyn : y.negative = false) :
    x.magnitude ≤ (x.max y).magnitude ∧ y.magnitude ≤ (x.max y).magnitude := by
  have hkey : x.lt y = true ↔ x.magnitude < y.magnitude := by
    rw [lt_iff_key_lt hx hy, key, key, hxn, hyn]
    exact Int.ofNat_lt
  rw [max, isNaN_eq_false hx, isNaN_eq_false hy, if_neg Bool.false_ne_true,
    if_neg Bool.false_ne_true]
  by_cases hlt : x.lt y = true
  · rw [if_pos hlt]
    exact ⟨(hkey.1 hlt).le, Nat.le_refl _⟩
  · rw [if_neg hlt]
    exact ⟨Nat.le_refl _, Nat.le_of_not_lt fun h => hlt (hkey.2 h)⟩

/-- A positive natural number is not rounded below one. -/
theorem one_le_units_ofNat {n : ℕ} (hn : 0 < n) (hpoint : fmt.fractionBits ≤ fmt.point)
    (hone : (fmt.point - fmt.fractionBits + 1) * 2 ^ fmt.fractionBits ≤ fmt.infinity) :
    2 ^ fmt.point ≤ (ofNat n : Binary fmt).units := by
  have hstart := Format.units_start fmt (fmt.point - fmt.fractionBits)
  rw [Nat.add_sub_cancel' hpoint] at hstart
  rw [← hstart]
  refine Format.units_mono (Format.le_round Nat.one_pos hone ?_)
  rw [hstart, Nat.mul_one]
  exact Nat.le_mul_of_pos_left _ hn

end Binary

/-! ### Single and double precision -/

theorem point_binary32 : binary32.point = 149 := rfl

theorem point_binary64 : binary64.point = 1074 := rfl

theorem two_pow_mul (a b c : ℕ) (h : a + b = c) : 2 ^ a * 2 ^ b = 2 ^ c := by
  rw [← Nat.pow_add, h]

/-- The first pattern of an exponent has no fraction. -/
theorem F64.units_start (s e : ℕ) (h : 52 + s = e) :
    binary64.units ((s + 1) * 2 ^ 52) = 2 ^ e := by
  rw [← h]
  exact Format.units_start binary64 s

/-- A finite word is below `2 ^ 128`. -/
theorem F32.units_lt_two_pow {x : F32} (hx : x.isFinite = true) : x.units < 2 ^ 277 := by
  have hlt := Format.units_lt binary32 (of_decide_eq_true hx) (by decide)
  rwa [show binary32.fractionBits + 2 ^ binary32.exponentBits - 2 = 277 from rfl] at hlt

end NNIS
