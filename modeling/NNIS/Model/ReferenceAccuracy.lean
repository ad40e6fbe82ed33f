import Mathlib.Data.List.Forall2
import NNIS.Model.Int2Reference
import NNIS.Model.Int4Quantizer

/-!
# The accuracy of the reference quantizers

A quantizer restores a zero to a zero and no value to one of the other sign, and it is off by hardly
more than half the scale. There are exceptions among the smallest tensors. The four-bit scale is a
seventh of the largest magnitude: it is rounded to zero for the three smallest magnitudes, and for
nine others it is rounded down by so much that the largest code falls short of them. The threshold
of the ternary codes is half the largest magnitude: where it is rounded down, a magnitude just below
the half is stored as the whole.

## Main definitions

* `KeepsZero`, `KeepsSign`, `WithinScale` — a value and what it is restored to.
* `HalvesToZero`, `RoundsHalfDown` — the exceptions of the ternary codes.

## Main results

* `reference_quantizers_accurate` — the exact accuracy of both quantizers.
-/

set_option autoImplicit false

namespace NNIS

/-! ### A value and what it is restored to -/

/-- A zero is restored to a zero. -/
def KeepsZero (value restored : F32) : Prop := value.isZero = true → restored.isZero = true

/-- A value is not restored to one of the other sign. -/
def KeepsSign (value restored : F32) : Prop := 0 ≤ value.value * restored.value

/-- A value is off by at most half the scale and a small part of it. -/
def WithinScale (scale value restored : F32) : Prop :=
  |restored.value - value.value| ≤ (1 / 2 + 1 / 2 ^ 19) * scale.value

/-- The same by units. -/
def NearUnits (s : ℕ) (value restored : ℤ) : Prop :=
  2 ^ 19 * value ≤ 2 ^ 19 * restored + (2 ^ 18 + 1) * s ∧
    2 ^ 19 * restored ≤ 2 ^ 19 * value + (2 ^ 18 + 1) * s

instance (s : ℕ) (value restored : ℤ) : Decidable (NearUnits s value restored) :=
  inferInstanceAs (Decidable (_ ∧ _))

section Value

variable {scale value restored : F32}

theorem withinScale_iff (hscale : scale.negative = false) :
    WithinScale scale value restored ↔
      NearUnits scale.units value.signedUnits restored.signedUnits := by
  have hpos : (0 : ℚ) < 2 ^ 149 := pow_pos two_pos 149
  have hscaleUnits : scale.signedUnits = scale.units := if_neg (hscale ▸ Bool.false_ne_true)
  rw [WithinScale, Binary.value, Binary.value, Binary.value, hscaleUnits, point_binary32, abs_le,
    ← sub_div, mul_div_assoc', ← neg_div, div_le_div_iff_of_pos_right hpos,
    div_le_div_iff_of_pos_right hpos, NearUnits]
  constructor
  · rintro ⟨hlow, hhigh⟩
    constructor
    · have h : (2 ^ 19 * value.signedUnits : ℚ) ≤
          2 ^ 19 * restored.signedUnits + (2 ^ 18 + 1) * scale.units := by
        push_cast at hlow
        linarith
      exact_mod_cast h
    · have h : (2 ^ 19 * restored.signedUnits : ℚ) ≤
          2 ^ 19 * value.signedUnits + (2 ^ 18 + 1) * scale.units := by
        push_cast at hhigh
        linarith
      exact_mod_cast h
  · rintro ⟨hlow, hhigh⟩
    have hlow' : (2 ^ 19 * value.signedUnits : ℚ) ≤
        2 ^ 19 * restored.signedUnits + (2 ^ 18 + 1) * scale.units := by exact_mod_cast hlow
    have hhigh' : (2 ^ 19 * restored.signedUnits : ℚ) ≤
        2 ^ 19 * value.signedUnits + (2 ^ 18 + 1) * scale.units := by exact_mod_cast hhigh
    push_cast
    constructor <;> linarith

theorem keepsSign_iff :
    KeepsSign value restored ↔ 0 ≤ value.signedUnits * restored.signedUnits := by
  have hpos : (0 : ℚ) < 2 ^ 149 * 2 ^ 149 := mul_pos (pow_pos two_pos 149) (pow_pos two_pos 149)
  rw [KeepsSign, Binary.value, Binary.value, point_binary32, div_mul_div_comm, ← Int.cast_mul]
  constructor
  · intro h
    by_contra hneg
    have hneg' : ((value.signedUnits * restored.signedUnits : ℤ) : ℚ) < 0 :=
      Int.cast_lt_zero.2 (not_le.1 hneg)
    exact absurd h (not_le.2 (div_neg_of_neg_of_pos hneg' hpos))
  · exact fun h => div_nonneg (Int.cast_nonneg h) hpos.le

theorem isZero_iff_signedUnits : value.isZero = true ↔ value.signedUnits = 0 := by
  rw [← Binary.units_eq_zero_iff, ← Binary.natAbs_signedUnits, Int.natAbs_eq_zero]

end Value

/-- Values by their positions. -/
private theorem map_range_eq_map {values : List F32} {f : ℕ → F32} {g : F32 → F32}
    (h : ∀ index value, values[index]? = some value → f index = g value) :
    (List.range values.length).map f = values.map g := by
  refine List.ext_getElem? fun index => ?_
  rw [List.getElem?_map, List.getElem?_map]
  rcases Nat.lt_or_ge index values.length with hlt | hge
  · have hget : values[index]? = some values[index] := List.getElem?_eq_getElem hlt
    rw [List.getElem?_range hlt, hget, Option.map_some, Option.map_some, h index _ hget]
  · rw [List.getElem?_eq_none (by rwa [List.length_range]), List.getElem?_eq_none hge]
    rfl

private theorem forall₂_map_iff {values : List F32} {g : F32 → F32} {r : F32 → F32 → Prop} :
    List.Forall₂ r values (values.map g) ↔ ∀ value ∈ values, r value (g value) := by
  rw [List.forall₂_map_right_iff, List.forall₂_same]

/-! ### Four bits -/

/-- The largest magnitudes whose seventh is rounded to zero. -/
def int4Refused : List ℕ := [1, 2, 3]

/-- The largest magnitudes whose seventh is rounded down so far that the largest code falls short of
them by more than half of it. -/
def int4FallsShort : List ℕ := [8, 9, 10, 16, 17, 23, 24, 31, 38]

/-- The magnitude that a magnitude is restored to. -/
private def int4RestoredUnits (s v : ℕ) : ℕ :=
  binary32.units (binary32.round (int4Magnitude s v * s) 1)

/-- Under a scale near a seventh of the largest magnitude every magnitude is within the bound, but
for the exceptions. -/
private theorem nearUnits_int4 {m s v : ℕ} (hcovers : Int4Covers m s) (hv : v ≤ m)
    (hm : m ∉ int4FallsShort) : NearUnits s v (int4RestoredUnits s v) := by
  obtain ⟨hs, htop, hnear⟩ := hcovers
  have hfinite : binary32.round (int4Magnitude s v * s) 1 < binary32.infinity := by
    refine lt_of_le_of_lt (Format.round_le _ Nat.one_pos ?_)
      (by decide : binary32.infinity - 1 < binary32.infinity)
    rw [Nat.mul_one]
    exact (Nat.mul_le_mul_right s (min_le_right _ _)).trans htop
  obtain ⟨hlow, hhigh, hexact⟩ := F32.units_mul_near (min_le_right _ _) hfinite
  obtain ⟨-, hquotient, hquotient'⟩ := F32.units_div_near hs
    (hv.trans_lt (Int4Covers.lt ⟨hs, htop, hnear⟩))
  rw [int4RestoredUnits, int4Magnitude, NearUnits]
  generalize binary32.units (binary32.round (v * 2 ^ 149) s) = q at *
  obtain ⟨hround, hround'⟩ := Binary.nearestAway_near binary32 q
  rw [point_binary32] at hround hround'
  generalize Binary.nearestAway binary32 q = n at *
  -- The rounding of the quotient, in multiples of the scale.
  have hscaled : 2 * (n * s * 2 ^ 149) ≤ 2 * (q * s) + 2 ^ 149 * s := by
    have h := Nat.mul_le_mul_right s hround
    linarith
  have hscaled' : 2 * (q * s) ≤ 2 * (n * s * 2 ^ 149) + 2 ^ 149 * s := by
    have h := Nat.mul_le_mul_right s hround'.le
    linarith
  generalize binary32.units (binary32.round (min n 7 * s) 1) = restored at *
  rcases Nat.lt_or_ge n 8 with hsmall | hclamped
  · rw [Nat.min_eq_left (by omega)] at hlow hhigh
    generalize n * s = x at *
    generalize q * s = y at *
    omega
  · -- The largest code: the magnitude is at least seven and a half times the scale.
    rw [Nat.min_eq_right (by omega)] at hexact
    have hmul : 8 * s ≤ n * s := Nat.mul_le_mul_right s hclamped
    generalize n * s = x at *
    generalize q * s = y at *
    have hlarge : 15 * 2 ^ 20 * s ≤ 2 ^ 21 * v + s := by omega
    obtain hnear | hnear := hnear
    · have hrestored := hexact (by omega)
      simp only [int4FallsShort, List.mem_cons, List.not_mem_nil, or_false, not_or] at hm
      omega
    · omega

private theorem int4RestoredUnits_zero {s : ℕ} (hs : 0 < s) : int4RestoredUnits s 0 = 0 := by
  have hquotient : binary32.round (0 * 2 ^ 149) s = 0 :=
    Nat.le_zero.1 (Format.round_le _ hs (by rw [Nat.zero_mul]; exact Nat.zero_le _))
  have hmagnitude : int4Magnitude s 0 = 0 := by
    rw [int4Magnitude, hquotient]
    decide +kernel
  rw [int4RestoredUnits, hmagnitude, Nat.zero_mul]
  decide +kernel

/-- The exceptions fall short. -/
private theorem not_nearUnits_int4 : ∀ m ∈ int4FallsShort,
    ¬NearUnits (binary32.units (binary32.round m 7)) m
      (int4RestoredUnits (binary32.units (binary32.round m 7)) m) := by
  decide +kernel

/-! ### Ternary codes -/

/-- What a value is restored to under a scale. -/
private def int2Restored (scale value : F32) : F32 :=
  (int2Code (scale.mul (.ofBits 0x3F000000)) value).2.mul scale

private theorem int2Value_code (scale threshold value : F32) :
    int2Value scale (int2Code threshold value).1 = (int2Code threshold value).2.mul scale := by
  rw [int2Code]
  split_ifs <;> rfl

/-- The largest magnitude is the smallest one that is not zero, and a value is zero: the threshold
of the codes is zero too. -/
def HalvesToZero (values : List F32) : Prop :=
  maxUnits values = 1 ∧ ∃ value ∈ values, value.isZero = true

/-- Half the largest magnitude is rounded down and a magnitude is just below the half. -/
def RoundsHalfDown (values : List F32) : Prop :=
  maxUnits values % 4 = 1 ∧ maxUnits values < 2 ^ 18 ∧
    ∃ value ∈ values, 2 * value.units + 1 = maxUnits values

/-- The half of a value is exact, but for the odd ones, whose half is even. -/
private theorem units_half {s : ℕ} (hs : F32.Digits s)
    (hfinite : binary32.round s 2 < binary32.infinity) :
    binary32.units (binary32.round s 2) = Format.nearestEven s 2 := by
  obtain ⟨c, j, hc, -, rfl⟩ := hs
  rcases Nat.eq_zero_or_pos j with rfl | hj
  · rw [Nat.pow_zero, Nat.mul_one] at hfinite ⊢
    have hshift : binary32.shift c 2 = 0 := Format.shift_eq_zero (by
      change c / 2 < 2 ^ 24
      omega)
    rw [Format.units_round_eq Nat.two_pos hfinite, hshift, Nat.pow_zero, Nat.mul_one, Nat.mul_one]
  · obtain ⟨i, rfl⟩ : ∃ i, j = i + 1 := ⟨j - 1, by omega⟩
    have hdouble : c * 2 ^ (i + 1) = c * 2 ^ i * 2 := by rw [Nat.pow_succ, Nat.mul_assoc]
    rw [hdouble] at hfinite ⊢
    rw [Format.units_round_exact hc Nat.two_pos hfinite,
      Format.nearestEven_mul_self _ Nat.two_pos]

section Level

variable {scale : F32} (hscale : scale.isFinite = true) (hsign : scale.negative = false)

include hscale hsign

/-- The level of a code, scaled. -/
private theorem signedUnits_level {level : F32} (hlevel : level.isFinite = true)
    (hunits : level.units = 2 ^ binary32.point) :
    (level.mul scale).signedUnits = if level.negative then -(scale.units : ℤ) else scale.units := by
  obtain ⟨c, j, hc, hj, hdigits⟩ := Format.exists_units_eq (of_decide_eq_true hscale)
  have hj : j ≤ 253 := hj
  have hmul : level.units * scale.units = c * 2 ^ j * 2 ^ binary32.point := by
    rw [hunits, Nat.mul_comm]
    exact congrArg (· * 2 ^ binary32.point) hdigits
  obtain ⟨hresult, -, hresultSign⟩ := Binary.mul_units hlevel hscale hmul hc
    ((by omega : j + 2 < 256).trans_eq rfl)
  rw [Binary.signedUnits, hresultSign, hsign, Bool.xor_false, hresult]
  rw [Binary.units, hdigits]

/-- The threshold of the codes. -/
private theorem threshold_spec :
    (scale.mul (.ofBits 0x3F000000)).isFinite = true ∧
      (scale.mul (.ofBits 0x3F000000)).signedUnits = Format.nearestEven scale.units 2 := by
  have hhalf : (Binary.ofBits 0x3F000000 : F32).units = 2 ^ 148 := rfl
  have hpow : (2 : ℕ) ^ binary32.point = 2 * 2 ^ 148 := rfl
  have hround : binary32.round (scale.units * 2 ^ 148) (2 * 2 ^ 148) =
    binary32.round scale.units 2 := Format.round_mul_right _ _ _ (Nat.two_pow_pos 148)
  have hmul := Binary.mul_eq_rounded hscale (rfl : (Binary.ofBits 0x3F000000 : F32).isFinite = true)
  rw [hhalf, hpow, hsign] at hmul
  have hfinite : binary32.round scale.units 2 < binary32.infinity := by
    refine lt_of_le_of_lt (Format.round_le _ Nat.two_pos ?_) (of_decide_eq_true hscale)
    exact Nat.le_mul_of_pos_right _ Nat.two_pos
  rw [hmul, Binary.isFinite_rounded_iff, hround, Binary.signedUnits, Binary.units_rounded_eq,
    hround, units_half (F32.digits_units hscale) hfinite]
  exact ⟨hfinite, if_neg Bool.false_ne_true⟩

/-- What a value is restored to: the scale from the threshold on. -/
private theorem signedUnits_int2Restored {value : F32} (hvalue : value.isFinite = true) :
    (int2Restored scale value).signedUnits =
      if (Format.nearestEven scale.units 2 : ℤ) ≤ value.signedUnits then (scale.units : ℤ)
      else if value.signedUnits ≤ -(Format.nearestEven scale.units 2 : ℤ) then -(scale.units : ℤ)
      else 0 := by
  obtain ⟨hfinite, hunits⟩ := threshold_spec hscale hsign
  have hpositive := Binary.le_iff_signedUnits_le hfinite hvalue
  have hnegative := Binary.le_iff_signedUnits_le hvalue
    (rfl.trans hfinite : (scale.mul (.ofBits 0x3F000000)).neg.isFinite = true)
  rw [Binary.signedUnits_neg, hunits] at hnegative
  rw [hunits] at hpositive
  simp only [int2Restored, int2Code, hpositive, hnegative]
  split_ifs
  · exact signedUnits_level hscale hsign rfl rfl
  · exact signedUnits_level hscale hsign rfl rfl
  · rw [Binary.mul_eq_rounded rfl hscale, ← Int.natAbs_eq_zero, Binary.natAbs_signedUnits]
    have hzero : (Binary.zero false : F32).units * scale.units = 0 := Nat.zero_mul _
    rw [hzero]
    rfl

end Level

/-- The restored magnitudes are near unless a half is rounded down. -/
private theorem nearUnits_int2_iff {m s : ℕ} {value : ℤ} (hle : value.natAbs ≤ m)
    (hs : s = m ∨ m = 0 ∧ s = 2 ^ 149) :
    NearUnits s value (if (Format.nearestEven s 2 : ℤ) ≤ value then (s : ℤ)
      else if value ≤ -(Format.nearestEven s 2 : ℤ) then -(s : ℤ) else 0) ↔
        ¬(m % 4 = 1 ∧ m < 2 ^ 18 ∧ 2 * value.natAbs + 1 = m) := by
  have hhalf : 2 * Format.nearestEven s 2 + (if s % 4 = 1 then 1 else 0) =
      s + (if s % 4 = 3 then 1 else 0) := by
    rw [Format.nearestEven]
    split_ifs <;> omega
  generalize Format.nearestEven s 2 = t at *
  rw [NearUnits]
  constructor
  · rintro hnear ⟨hmod, hlt, hdown⟩
    rcases hs with rfl | ⟨rfl, rfl⟩
    · split_ifs at hhalf hnear <;> omega
    · omega
  · intro hdown
    rcases hs with rfl | ⟨rfl, rfl⟩
    · split_ifs at hhalf ⊢ <;> omega
    · split_ifs at hhalf ⊢ <;> omega

section Tensor

variable {values : List F32} (hne : values ≠ [])
  (hfinite : ∀ value ∈ values, value.isFinite = true) (hlength : values.length * 4 ≤ isizeMax)

include hne hfinite hlength

/-- The accuracy of four bits, but for the largest magnitudes without a scale. -/
private theorem int4_accurate (hscale : maxUnits values ∉ int4Refused) :
    ∃ quantized restored, quantizeInt4SymmetricReferenceV1 values = .ok quantized ∧
      quantized.validateQuantizedTensor = .ok ⟨⟩ ∧
        dequantizeInt4SymmetricReferenceV1 quantized = .ok restored ∧
          List.Forall₂ KeepsZero values restored ∧ List.Forall₂ KeepsSign values restored ∧
            (List.Forall₂ (WithinScale quantized.scale) values restored ↔
              maxUnits values ∉ int4FallsShort) := by
  have hsmall : maxUnits values = 0 ∨ 4 ≤ maxUnits values := by
    simp only [int4Refused, List.mem_cons, List.not_mem_nil, or_false, not_or] at hscale
    omega
  obtain ⟨quantized, hok, hvalid, hstored, hcovers⟩ :=
    quantizeInt4_of_finite hfinite hne hlength hsmall
  obtain ⟨hcount, hscaleFinite, hsign, hunits, hvalue⟩ := hstored
  rw [← hunits] at hcovers
  have hrestored (value : F32) (hv : value ∈ values) :
      (int4Restored quantized.scale value).signedUnits =
        if value.negative then -(int4RestoredUnits quantized.scale.units value.units : ℤ)
        else int4RestoredUnits quantized.scale.units value.units :=
    (int4Restored_spec (hfinite value hv) hscaleFinite hsign hcovers.pos
      ((units_le_maxUnits hv).trans_lt hcovers.lt) hcovers.top).2.2
  have hnear (value : F32) (hv : value ∈ values) :
      WithinScale quantized.scale value (int4Restored quantized.scale value) ↔
        NearUnits quantized.scale.units value.units
          (int4RestoredUnits quantized.scale.units value.units) := by
    rw [withinScale_iff hsign, hrestored value hv, Binary.signedUnits, NearUnits, NearUnits]
    split_ifs <;> omega
  refine ⟨quantized, values.map (int4Restored quantized.scale), hok, hvalid, ?_, ?_, ?_, ?_⟩
  · rw [dequantizeInt4_eq_ok hvalid, hcount, map_range_eq_map hvalue]
  · refine forall₂_map_iff.2 fun value hv hzero => isZero_iff_signedUnits.2 ?_
    rw [hrestored value hv, Binary.units_eq_zero_iff.2 hzero, int4RestoredUnits_zero hcovers.pos]
    simp
  · refine forall₂_map_iff.2 fun value hv => keepsSign_iff.2 ?_
    rw [hrestored value hv, Binary.signedUnits]
    split_ifs
    · rw [neg_mul_neg]
      exact mul_nonneg (Int.natCast_nonneg _) (Int.natCast_nonneg _)
    · exact mul_nonneg (Int.natCast_nonneg _) (Int.natCast_nonneg _)
  · rw [forall₂_map_iff]
    constructor
    · intro hall hshort
      have hpos : 0 < maxUnits values := by
        simp only [int4FallsShort, List.mem_cons, List.not_mem_nil, or_false] at hshort
        omega
      obtain ⟨value, hv, hmax⟩ := exists_units_eq_maxUnits hpos
      have hbound := (hnear value hv).1 (hall value hv)
      rw [hunits, int4ScaleUnits, if_neg hpos.ne', hmax] at hbound
      exact not_nearUnits_int4 _ hshort hbound
    · exact fun hshort value hv =>
        (hnear value hv).2 (nearUnits_int4 hcovers (units_le_maxUnits hv) hshort)

/-- The accuracy of the ternary codes. -/
private theorem int2_accurate :
    ∃ quantized restored, quantizeInt2TernaryReferenceV1 values = .ok quantized ∧
      validateQuantizedTensor quantized = .ok ⟨⟩ ∧
        dequantizeInt2TernaryReferenceV1 quantized = .ok restored ∧
          (List.Forall₂ KeepsZero values restored ↔ ¬HalvesToZero values) ∧
            List.Forall₂ KeepsSign values restored ∧
              (List.Forall₂ (WithinScale quantized.scale) values restored ↔
                ¬RoundsHalfDown values) := by
  obtain ⟨quantized, hok, hvalid, hstored⟩ := quantizeInt2_of_finite hne hfinite hlength
  obtain ⟨hcount, hscaleFinite, hsign, hunits, hcode⟩ := hstored
  have hvalue (value : F32) (hv : value ∈ values) :=
    signedUnits_int2Restored hscaleFinite hsign (hfinite value hv)
  have hscale : quantized.scale.units = maxUnits values ∨
      maxUnits values = 0 ∧ quantized.scale.units = 2 ^ 149 := by
    rw [hunits, int2ScaleUnits]
    split_ifs with hzero
    · exact .inr ⟨hzero, rfl⟩
    · exact .inl rfl
  -- A zero is kept unless the threshold is zero.
  have hkeeps (value : F32) (hv : value ∈ values) :
      KeepsZero value (int2Restored quantized.scale value) ↔
        ¬(maxUnits values = 1 ∧ value.isZero = true) := by
    have hhalf : Format.nearestEven quantized.scale.units 2 = 0 ↔ quantized.scale.units ≤ 1 := by
      rw [Format.nearestEven]
      split_ifs <;> omega
    rw [KeepsZero, isZero_iff_signedUnits, isZero_iff_signedUnits, hvalue value hv]
    constructor
    · rintro hkept ⟨hmax, hzero⟩
      have hone : quantized.scale.units = 1 := by omega
      rw [hzero, hhalf.2 hone.le, hone] at hkept
      exact absurd (hkept rfl) (by decide)
    · intro hmax hzero
      rw [hzero]
      split_ifs <;> omega
  have hnear (value : F32) (hv : value ∈ values) :
      WithinScale quantized.scale value (int2Restored quantized.scale value) ↔
        ¬(maxUnits values % 4 = 1 ∧ maxUnits values < 2 ^ 18 ∧
          2 * value.units + 1 = maxUnits values) := by
    have hle : value.signedUnits.natAbs ≤ maxUnits values := by
      rw [Binary.natAbs_signedUnits]
      exact units_le_maxUnits hv
    rw [withinScale_iff hsign, hvalue value hv, nearUnits_int2_iff hle hscale,
      Binary.natAbs_signedUnits]
  refine ⟨quantized, values.map (int2Restored quantized.scale), hok, hvalid, ?_, ?_, ?_, ?_⟩
  · rw [dequantizeInt2_eq_ok hvalid, hcount]
    refine congrArg Except.ok (map_range_eq_map fun index value h => ?_)
    rw [hcode index value h, int2Value_code, int2Restored]
  · rw [forall₂_map_iff]
    constructor
    · rintro hall ⟨hmax, value, hv, hzero⟩
      exact (hkeeps value hv).1 (hall value hv) ⟨hmax, hzero⟩
    · exact fun hnone value hv => (hkeeps value hv).2 fun h => hnone ⟨h.1, value, hv, h.2⟩
  · refine forall₂_map_iff.2 fun value hv => keepsSign_iff.2 ?_
    rw [hvalue value hv]
    split_ifs with hpositive hnegative
    · exact mul_nonneg (by omega) (Int.natCast_nonneg _)
    · exact mul_nonneg_of_nonpos_of_nonpos (by omega) (by omega)
    · rw [mul_zero]
  · rw [forall₂_map_iff]
    constructor
    · rintro hall ⟨hmod, hlt, value, hv, hdown⟩
      exact (hnear value hv).1 (hall value hv) ⟨hmod, hlt, hdown⟩
    · exact fun hnone value hv => (hnear value hv).2 fun h => hnone ⟨h.1, h.2.1, value, hv, h.2.2⟩

/-- For finite values both quantizers are total and accurate, with the exceptions of the four-bit
scale: the three smallest largest magnitudes are refused, and for nine others the bound fails. The
ternary codes lose a zero beside the smallest magnitude only, and the bound where a half is rounded
down. -/
theorem reference_quantizers_accurate :
    (maxUnits values ∈ int4Refused → quantizeInt4SymmetricReferenceV1 values =
      .error (.invalidInput "INT4 reference scale is not a finite positive F32 value")) ∧
    (maxUnits values ∉ int4Refused → ∃ quantized restored,
      quantizeInt4SymmetricReferenceV1 values = .ok quantized ∧
        quantized.validateQuantizedTensor = .ok ⟨⟩ ∧
          dequantizeInt4SymmetricReferenceV1 quantized = .ok restored ∧
            List.Forall₂ KeepsZero values restored ∧ List.Forall₂ KeepsSign values restored ∧
              (List.Forall₂ (WithinScale quantized.scale) values restored ↔
                maxUnits values ∉ int4FallsShort)) ∧
    ∃ quantized restored, quantizeInt2TernaryReferenceV1 values = .ok quantized ∧
      validateQuantizedTensor quantized = .ok ⟨⟩ ∧
        dequantizeInt2TernaryReferenceV1 quantized = .ok restored ∧
          (List.Forall₂ KeepsZero values restored ↔ ¬HalvesToZero values) ∧
            List.Forall₂ KeepsSign values restored ∧
              (List.Forall₂ (WithinScale quantized.scale) values restored ↔
                ¬RoundsHalfDown values) := by
  refine ⟨fun hrefused => ?_, int4_accurate hne hfinite hlength, int2_accurate hne hfinite hlength⟩
  refine quantizeInt4_eq_error hfinite hne ?_
  simp only [int4Refused, List.mem_cons, List.not_mem_nil, or_false] at hrefused
  omega

end Tensor

/-- One, a quarter and a zero are restored within the bound by both. -/
theorem reference_quantizers_accurate_one :
    (∃ quantized restored,
      quantizeInt4SymmetricReferenceV1 [.ofBits 0x3F800000, .ofBits 0x3E800000, .zero false] =
        .ok quantized ∧ dequantizeInt4SymmetricReferenceV1 quantized = .ok restored ∧
          List.Forall₂ (WithinScale quantized.scale)
            [.ofBits 0x3F800000, .ofBits 0x3E800000, .zero false] restored) ∧
    ∃ quantized restored,
      quantizeInt2TernaryReferenceV1 [.ofBits 0x3F800000, .ofBits 0x3E800000, .zero false] =
        .ok quantized ∧ dequantizeInt2TernaryReferenceV1 quantized = .ok restored ∧
          List.Forall₂ KeepsZero [.ofBits 0x3F800000, .ofBits 0x3E800000, .zero false] restored ∧
            List.Forall₂ (WithinScale quantized.scale)
              [.ofBits 0x3F800000, .ofBits 0x3E800000, .zero false] restored := by
  obtain ⟨-, hint4, hint2⟩ := @reference_quantizers_accurate
    [.ofBits 0x3F800000, .ofBits 0x3E800000, .zero false] (by simp) (by decide) (by decide)
  have hmax : maxUnits [.ofBits 0x3F800000, .ofBits 0x3E800000, .zero false] = 2 ^ 149 := by
    decide +kernel
  constructor
  · obtain ⟨quantized, restored, hok, -, hrestored, -, -, hnear⟩ := hint4 (by decide +kernel)
    exact ⟨quantized, restored, hok, hrestored, hnear.2 (by decide +kernel)⟩
  · obtain ⟨quantized, restored, hok, -, hrestored, hzeros, -, hnear⟩ := hint2
    refine ⟨quantized, restored, hok, hrestored, hzeros.2 fun h => ?_, hnear.2 fun h => ?_⟩
    · exact absurd (hmax.symm.trans h.1) (by decide)
    · exact absurd (hmax ▸ h.2.1) (by decide)

/-- The smallest positive value is refused: a seventh of it is rounded to zero. -/
theorem quantizeInt4_refuses_smallest :
    quantizeInt4SymmetricReferenceV1 [.ofBits 1] =
      .error (.invalidInput "INT4 reference scale is not a finite positive F32 value") := by
  refine quantizeInt4_eq_error (fun value hvalue => ?_) (by simp) (by decide +kernel)
  rw [List.mem_singleton.1 hvalue]
  decide

end NNIS
