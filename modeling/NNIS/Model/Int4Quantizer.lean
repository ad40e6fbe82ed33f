import NNIS.Model.Int4Reference
import NNIS.Model.ReferenceLoop
import NNIS.Numeric.Integers

/-!
# Quantizing to four bits

The scale of a tensor is a seventh of its largest magnitude. A value is divided by the scale,
rounded to an integer away from zero and kept between minus seven and seven. The function is that of
`nnis-model/src/int4_reference.rs`.

## Main definitions

* `int4Quantized`, `quantizeInt4SymmetricReferenceV1`.

## Main results

* `int4Quantized_eq` — the integer of a value, by units.
* `quantizeInt4_of_finite` — finite values are stored when their scale is positive.
-/

set_option autoImplicit false

namespace NNIS

/-- The least integer of a code. -/
def nnisInt4ReferenceQuantMin : ℤ := -7

/-- The greatest integer of a code. -/
def nnisInt4ReferenceQuantMax : ℤ := 7

/-- The largest magnitude of finite values. -/
def int4MaxAbs (values : List F32) : Except NnisError F32 :=
  maxAbsOf (fun index => .invalidInput s!"INT4 reference source value {index} is not finite") values

/-- The integer of a value. -/
def int4Quantized (scale value : F32) : ℤ :=
  let scaled := (value.div scale).roundAway
  ((scaled.max (.ofInt nnisInt4ReferenceQuantMin)).min (.ofInt nnisInt4ReferenceQuantMax)).toI8

/-- The code of an integer. -/
def int4Code (quantized : ℤ) : UInt8 := UInt8.ofInt quantized &&& 0x0f

/-- What the integer of a value stands for. -/
def int4Restored (scale value : F32) : F32 := (Binary.ofInt (int4Quantized scale value)).mul scale

/-- The payload of values and the report of their errors. -/
def int4Encode (scale : F32) (packedLen : ℕ) (values : List F32) :
    List UInt8 × ReconstructionError :=
  packReport 4 2 packedLen (fun value => int4Code (int4Quantized scale value)) (int4Restored scale)
    values

/-- The stored form of values. -/
def quantizeInt4SymmetricReferenceV1 (values : List F32) :
    Except NnisError Int4ReferenceQuantizedTensorV1 :=
  if values = [] then
    .error (.invalidInput "INT4 reference quantization requires at least one value")
  else do
    let maxAbs ← int4MaxAbs values
    let scale : F32 := if maxAbs.isZero then .ofBits 0x3F800000
      else maxAbs.div (.ofInt nnisInt4ReferenceQuantMax)
    if !scale.isFinite || scale.le (.zero false) then
      .error (.invalidInput "INT4 reference scale is not a finite positive F32 value")
    else
      match checkedAdd values.length 1 with
      | none => .error (.invalidInput "INT4 element count overflows usize")
      | some padded => do
        let (packedValues, report) := int4Encode scale (padded / 2) values
        let quantized : Int4ReferenceQuantizedTensorV1 :=
          { elementCount := values.length
            scale := scale
            packedValues := packedValues
            maxAbsError := report.maxAbsError
            meanSquaredError := report.meanSquaredError values.length }
        quantized.validateQuantizedTensor
        .ok quantized

/-! ### The integer of a value -/

/-- The integer of a quotient whose magnitude is rounded to a small one. -/
private theorem clamp_eq : ∀ (negative : Bool) (n : Fin 18),
    (((Binary.rounded negative (n.val * 2 ^ 149) 1 : F32).max
      (.ofInt nnisInt4ReferenceQuantMin)).min (.ofInt nnisInt4ReferenceQuantMax)).toI8 =
        if negative then -((min n.val 7 : ℕ) : ℤ) else (min n.val 7 : ℕ) := by
  decide +kernel

/-- The magnitude of the integer of a value, by units. -/
def int4Magnitude (s v : ℕ) : ℕ :=
  min (Binary.nearestAway binary32 (binary32.units (binary32.round (v * 2 ^ 149) s))) 7

private theorem nearestAway_lt {s v : ℕ} (hs : 0 < s) (hlt : v < 16 * s) :
    Binary.nearestAway binary32 (binary32.units (binary32.round (v * 2 ^ 149) s)) < 18 := by
  obtain ⟨-, -, hhigh⟩ := F32.units_div_near hs hlt
  generalize binary32.units (binary32.round (v * 2 ^ 149) s) = q at *
  have hbound : q ≤ 2 ^ 153 + 2 ^ 128 := by
    refine Nat.le_of_mul_le_mul_right ?_ hs
    rw [Nat.add_mul]
    omega
  obtain ⟨hnear, -⟩ := Binary.nearestAway_near binary32 q
  rw [point_binary32] at hnear
  omega

private theorem ofInt_small : ∀ (negative : Bool) (k : Fin 8),
    let quantized : ℤ := if negative then -(k.val : ℤ) else k.val
    (Binary.ofInt quantized : F32).isFinite = true ∧
      (Binary.ofInt quantized : F32).negative = (negative && decide (k.val ≠ 0)) ∧
        (Binary.ofInt quantized : F32).units = k.val * 2 ^ binary32.point := by
  decide +kernel

section Value

variable {scale value : F32} (hvalue : value.isFinite = true) (hscale : scale.isFinite = true)
  (hsign : scale.negative = false) (hpos : 0 < scale.units)
  (hlt : value.units < 16 * scale.units)

include hvalue hscale hsign hpos hlt

theorem int4Quantized_eq : int4Quantized scale value =
    if value.negative then -(int4Magnitude scale.units value.units : ℤ)
    else int4Magnitude scale.units value.units := by
  have hdiv : value.div scale =
      Binary.rounded value.negative (value.units * 2 ^ 149) scale.units := by
    rw [Binary.div_eq_rounded_of_ne_zero hvalue hscale hpos.ne', hsign, Bool.xor_false,
      point_binary32]
  have hfinite := (F32.units_div_near hpos hlt).1
  have hclamp := clamp_eq value.negative ⟨_, nearestAway_lt hpos hlt⟩
  rw [int4Quantized, hdiv, Binary.roundAway_eq ((Binary.isFinite_rounded_iff _ _ _).2 hfinite),
    Binary.negative_rounded, Binary.units_rounded_eq, point_binary32, int4Magnitude]
  exact hclamp

/-- What a value is restored to has the sign of the value and a multiple of the scale as its
magnitude, rounded. -/
theorem int4Restored_spec (htop : 7 * scale.units ≤ binary32.units (binary32.infinity - 1)) :
    binary32.round (int4Magnitude scale.units value.units * scale.units) 1 ≤
        binary32.infinity - 1 ∧
      (int4Restored scale value).isFinite = true ∧
        (int4Restored scale value).signedUnits =
          if value.negative then -(binary32.units (binary32.round
            (int4Magnitude scale.units value.units * scale.units) 1) : ℤ)
          else binary32.units (binary32.round
            (int4Magnitude scale.units value.units * scale.units) 1) := by
  have hquantized := int4Quantized_eq hvalue hscale hsign hpos hlt
  have hle : int4Magnitude scale.units value.units ≤ 7 := min_le_right _ _
  generalize int4Magnitude scale.units value.units = k at *
  obtain ⟨hfinite, hnegative, hunits⟩ := ofInt_small value.negative ⟨k, by omega⟩
  dsimp only at hfinite hnegative hunits
  rw [← hquantized] at hfinite hnegative hunits
  have hround : binary32.round (k * scale.units) 1 ≤ binary32.infinity - 1 := by
    refine Format.round_le _ Nat.one_pos ?_
    rw [Nat.mul_one]
    exact (Nat.mul_le_mul_right _ hle).trans htop
  have hmagnitude : (int4Restored scale value).magnitude = binary32.round (k * scale.units) 1 :=
    Binary.magnitude_mul_ofUnits hfinite hscale hunits
  refine ⟨hround, Binary.isFinite_of_magnitude_le (hmagnitude.le.trans hround) (by decide), ?_⟩
  have hrestored : (int4Restored scale value).negative = (value.negative && decide (k ≠ 0)) := by
    rw [int4Restored, Binary.negative_mul hfinite hscale, hsign, Bool.xor_false, hnegative]
  rw [Binary.signedUnits, hrestored, Binary.units, hmagnitude]
  rcases Nat.eq_zero_or_pos k with rfl | hk
  · have hzero : binary32.units (binary32.round (0 * scale.units) 1) = 0 := by
      rw [Nat.zero_mul]
      rfl
    rw [hzero]
    simp
  · rw [decide_eq_true hk.ne', Bool.and_true]

end Value

/-! ### The scale -/

/-- A scale for magnitudes up to a largest one: seven times the scale is in range and near it. -/
structure Int4Covers (m s : ℕ) : Prop where
  pos : 0 < s
  top : 7 * s ≤ binary32.units (binary32.infinity - 1)
  near : (m ≤ 7 * s + 3 ∧ 7 * s ≤ m + 3) ∨ 2 ^ 20 * m ≤ (7 * 2 ^ 20 + 1) * s

/-- A largest magnitude is below sixteen times its scale. -/
theorem Int4Covers.lt {m s : ℕ} (h : Int4Covers m s) : m < 16 * s := by
  have hpos := h.pos
  rcases h.near with hnear | hnear <;> omega

/-- The largest finite word is a multiple of seven. -/
private theorem seventh_top :
    binary32.units 0x7E124924 * 7 = binary32.units (binary32.infinity - 1) ∧
    0x7E124924 < binary32.infinity := by
  decide +kernel

/-- The scale of values: a seventh of their largest magnitude, or one. -/
def int4ScaleUnits (values : List F32) : ℕ :=
  if maxUnits values = 0 then 2 ^ binary32.point
  else binary32.units (binary32.round (maxUnits values) 7)

private theorem round_seventh_le {m : ℕ} (hm : m ≤ binary32.units (binary32.infinity - 1)) :
    binary32.round m 7 ≤ 0x7E124924 :=
  Format.round_le _ (by decide) (hm.trans_eq seventh_top.1.symm)

/-- The scale of a largest magnitude that is zero or at least four smallest positive ones. -/
theorem int4Covers_scaleUnits {values : List F32}
    (htop : maxUnits values ≤ binary32.units (binary32.infinity - 1))
    (hscale : maxUnits values = 0 ∨ 4 ≤ maxUnits values) :
    Int4Covers (maxUnits values) (int4ScaleUnits values) := by
  rw [int4ScaleUnits]
  generalize maxUnits values = m at *
  split_ifs with hzero
  · subst hzero
    exact ⟨Nat.two_pow_pos _, by decide +kernel, .inr (Nat.zero_le _)⟩
  · have hle := round_seventh_le htop
    have hnear := F32.units_seventh_near (hle.trans_lt seventh_top.2)
    refine ⟨Nat.pos_of_ne_zero fun hnone => ?_, ?_, hnear⟩
    · rw [hnone] at hnear
      omega
    · rw [← seventh_top.1, Nat.mul_comm]
      exact Nat.mul_le_mul_right 7 (Format.units_mono hle)

/-! ### Finite values are stored -/

/-- The code of a small integer. -/
private theorem int4Code_spec : ∀ (negative : Bool) (k : Fin 8),
    let quantized : ℤ := if negative then -(k.val : ℤ) else k.val
    (int4Code quantized).toNat < 2 ^ 4 ∧ int4Code quantized ≠ 0x08 ∧
      int4Signed (int4Code quantized) = quantized := by
  decide +kernel

/-- What finite values are stored as: the scale of their largest magnitude and a code for each,
which stands for what its value is restored to. -/
structure Int4Stored (values : List F32) (quantized : Int4ReferenceQuantizedTensorV1) : Prop where
  elementCount_eq : quantized.elementCount = values.length
  scale_finite : quantized.scale.isFinite = true
  scale_sign : quantized.scale.negative = false
  scale_units : quantized.scale.units = int4ScaleUnits values
  value_eq : ∀ index value, values[index]? = some value →
    int4Value quantized.scale (int4Nibble quantized.packedValues index) =
      int4Restored quantized.scale value

private theorem exists_int4Stored {values : List F32} {quantized : Int4ReferenceQuantizedTensorV1}
    (hvalid : quantized.validateQuantizedTensor = .ok ⟨⟩) (hstored : Int4Stored values quantized) :
    ∃ stored, (quantized.validateQuantizedTensor >>= fun _ => .ok quantized) = .ok stored ∧
      stored.validateQuantizedTensor = .ok ⟨⟩ ∧ Int4Stored values stored :=
  ⟨quantized, by rw [hvalid]; rfl, hvalid, hstored⟩

section Quantize

variable {values : List F32} (hfinite : ∀ value ∈ values, value.isFinite = true)

include hfinite

/-- The scale of finite values. -/
private theorem exists_int4Scale : ∃ maxAbs scale : F32, int4MaxAbs values = .ok maxAbs ∧
    (if maxAbs.isZero then .ofBits 0x3F800000
      else maxAbs.div (.ofInt nnisInt4ReferenceQuantMax)) = scale ∧ scale.isFinite = true ∧
        scale.negative = false ∧ scale.units = int4ScaleUnits values ∧
          maxUnits values ≤ binary32.units (binary32.infinity - 1) := by
  obtain ⟨maxAbs, hmax, hmaxFinite, hmaxSign, -, hmaxUnits⟩ := exists_maxAbsOf _ hfinite
  have htop : maxUnits values ≤ binary32.units (binary32.infinity - 1) := by
    rw [← hmaxUnits]
    have hlt : maxAbs.magnitude < binary32.infinity := of_decide_eq_true hmaxFinite
    exact Format.units_mono (by omega)
  refine ⟨maxAbs, _, hmax, rfl, ?_⟩
  rw [int4ScaleUnits, ← hmaxUnits]
  split_ifs with hzero hunits hunits
  · exact ⟨rfl, rfl, rfl, hmaxUnits ▸ htop⟩
  · exact absurd (Binary.units_eq_zero_iff.2 hzero) hunits
  · exact absurd (Binary.units_eq_zero_iff.1 hunits) hzero
  · obtain ⟨hseven, hsevenSign, hsevenUnits⟩ := ofInt_small false ⟨7, by decide⟩
    have hround : binary32.round (maxAbs.units * 2 ^ binary32.point) (7 * 2 ^ binary32.point) =
        binary32.round maxAbs.units 7 := Format.round_mul_right _ _ _ (Nat.two_pow_pos _)
    have hdiv := Binary.div_eq_rounded_of_ne_zero hmaxFinite hseven
      (hsevenUnits ▸ (Nat.mul_pos (by decide) (Nat.two_pow_pos _)).ne')
    rw [hsevenUnits, hsevenSign, hmaxSign] at hdiv
    change maxAbs.div (.ofInt nnisInt4ReferenceQuantMax) =
      Binary.rounded false (maxAbs.units * 2 ^ binary32.point) (7 * 2 ^ binary32.point) at hdiv
    rw [hdiv, Binary.isFinite_rounded_iff, Binary.units_rounded_eq, hround]
    exact ⟨(round_seventh_le (hmaxUnits ▸ htop)).trans_lt seventh_top.2, rfl, rfl, hmaxUnits ▸ htop⟩

/-- Finite values are refused when their scale is rounded to zero. -/
theorem quantizeInt4_eq_error (hne : values ≠ [])
    (hsmall : 0 < maxUnits values ∧ maxUnits values < 4) :
    quantizeInt4SymmetricReferenceV1 values =
      .error (.invalidInput "INT4 reference scale is not a finite positive F32 value") := by
  obtain ⟨maxAbs, scale, hmax, hdef, hscale, hsign, hunits, -⟩ := exists_int4Scale hfinite
  have hnone : scale.units = 0 := by
    have hseventh : ∀ m : Fin 4, binary32.units (binary32.round m.val 7) = 0 := by decide +kernel
    rw [hunits, int4ScaleUnits, if_neg hsmall.1.ne']
    exact hseventh ⟨_, hsmall.2⟩
  have hle : scale.le (.zero false) = true := by
    by_contra hpos
    exact (Binary.pos_of_not_le_zero hscale (Bool.not_eq_true _ ▸ hpos)).2.ne' hnone
  rw [quantizeInt4SymmetricReferenceV1, if_neg hne, hmax, Except.ok_bind]
  simp only [hdef, hle, Bool.or_true, ↓reduceIte]

/-- Finite values are stored, as many as a host slice can hold, when their scale is positive. -/
theorem quantizeInt4_of_finite (hne : values ≠ []) (hlength : values.length * 4 ≤ isizeMax)
    (hscale : maxUnits values = 0 ∨ 4 ≤ maxUnits values) :
    ∃ quantized, quantizeInt4SymmetricReferenceV1 values = .ok quantized ∧
      quantized.validateQuantizedTensor = .ok ⟨⟩ ∧ Int4Stored values quantized ∧
        Int4Covers (maxUnits values) (int4ScaleUnits values) := by
  have hcount : values.length ≤ 2 ^ 61 := by
    unfold isizeMax at hlength
    omega
  have hpadded : values.length + 1 < wordLimit := by
    unfold wordLimit
    omega
  obtain ⟨maxAbs, scale, hmax, hdef, hfiniteScale, hsign, hunits, htop⟩ :=
    exists_int4Scale hfinite
  have hcovers := int4Covers_scaleUnits htop hscale
  rw [← hunits] at hcovers
  have hnotLe : scale.le (.zero false) = false := by
    rw [Binary.le, decide_eq_false, Bool.and_false]
    have hpositive : scale.magnitude ≠ 0 := fun h =>
      hcovers.pos.ne' (Binary.units_eq_zero_iff.2 (decide_eq_true h))
    rw [Binary.key, hsign, Binary.key]
    exact fun h => absurd (Int.ofNat_le.1 h) (Nat.not_le.2 (Nat.pos_of_ne_zero hpositive))
  have hlt (value : F32) (hv : value ∈ values) : value.units < 16 * scale.units :=
    (units_le_maxUnits hv).trans_lt hcovers.lt
  have hspec (value : F32) (hv : value ∈ values) :
      (int4Code (int4Quantized scale value)).toNat < 2 ^ 4 ∧
        int4Code (int4Quantized scale value) ≠ 0x08 ∧
          int4Signed (int4Code (int4Quantized scale value)) = int4Quantized scale value := by
    rw [int4Quantized_eq (hfinite value hv) hfiniteScale hsign hcovers.pos (hlt value hv)]
    exact int4Code_spec value.negative
      ⟨int4Magnitude scale.units value.units, Nat.lt_succ_of_le (min_le_right _ _)⟩
  have hcode : ∀ code ∈ values.map fun value => int4Code (int4Quantized scale value),
      code ≠ 0x08 ∧ code.toNat < 2 ^ 4 := by
    intro code hcode
    obtain ⟨value, hv, rfl⟩ := List.mem_map.1 hcode
    exact ⟨(hspec value hv).2.1, (hspec value hv).1⟩
  obtain ⟨hlen, hread⟩ := laneAt_packLanes 4 2 ((values.length + 1) / 2) (by decide) (by decide)
    (by decide) (fun code h => (hcode code h).2) (by rw [List.length_map]; omega)
  have hrestore : ∀ value ∈ values, (int4Restored scale value).isFinite = true ∧
      (value.signedUnits - (int4Restored scale value).signedUnits).natAbs ≤
        binary32.units (binary32.infinity - 1) := by
    intro value hv
    obtain ⟨hround, hrestored, hvalue⟩ := int4Restored_spec (hfinite value hv) hfiniteScale hsign
      hcovers.pos (hlt value hv) hcovers.top
    refine ⟨hrestored, ?_⟩
    have hbound := (units_le_maxUnits hv).trans htop
    have hmono : binary32.units (binary32.round
        (int4Magnitude scale.units value.units * scale.units) 1) ≤
          binary32.units (binary32.infinity - 1) := Format.units_mono hround
    rw [hvalue, Binary.signedUnits]
    generalize binary32.units (binary32.infinity - 1) = top at hbound hmono ⊢
    generalize binary32.units (binary32.round _ 1) = restored at hmono ⊢
    split_ifs <;> omega
  have hreport := ReconstructionError.over_bounded hfinite (by decide) hrestore hcount
  have hencode (packedLen : ℕ) : int4Encode scale packedLen values =
      (packLanes 4 2 packedLen (values.map fun value => int4Code (int4Quantized scale value)),
        .over (int4Restored scale) values) := packReport_eq ..
  rw [quantizeInt4SymmetricReferenceV1, if_neg hne, hmax, Except.ok_bind]
  simp only [hdef, hfiniteScale, hnotLe, Bool.not_true, Bool.or_self, Bool.false_eq_true,
    ↓reduceIte, checkedAdd_of_lt hpadded, hencode]
  rw [← hunits]
  have hstored := @exists_int4Stored values
    { elementCount := values.length
      scale := scale
      packedValues := packLanes 4 2 ((values.length + 1) / 2)
        (values.map fun value => int4Code (int4Quantized scale value))
      maxAbsError := (ReconstructionError.over (int4Restored scale) values).maxAbsError
      meanSquaredError :=
        (ReconstructionError.over (int4Restored scale) values).meanSquaredError values.length }
        ?_ ?_
  · obtain ⟨stored, hok, hvalid, hstored⟩ := hstored
    exact ⟨stored, hok, hvalid, hstored, hcovers⟩
  · refine Int4ReferenceQuantizedTensorV1.validateQuantizedTensor_eq_ok_iff.2
      ⟨List.length_pos_of_ne_nil hne, hfiniteScale, hnotLe,
        ReconstructionError.validEvidence_of_bounded hreport (List.length_pos_of_ne_nil hne) hcount,
        hpadded, hlen, fun index hindex => ?_⟩
    rw [int4Nibble_eq, hread, List.getD_eq_getElem?_getD, List.getElem?_eq_getElem
      (by rwa [List.length_map])]
    exact (hcode _ (List.getElem_mem _)).1
  · refine ⟨rfl, hfiniteScale, hsign, hunits, fun index value hvalue => ?_⟩
    rw [int4Nibble_eq, hread, List.getD_eq_getElem?_getD, List.getElem?_map, hvalue,
      Option.map_some,
      Option.getD_some, int4Value, (hspec value (List.mem_of_getElem? hvalue)).2.2, int4Restored]

end Quantize

end NNIS
