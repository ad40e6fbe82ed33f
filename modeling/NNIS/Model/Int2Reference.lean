import NNIS.Codec.SelfDelimiting
import NNIS.Memory.Lane
import NNIS.Model.ReferenceLoop
import NNIS.Numeric.Bytes
import NNIS.Numeric.Quotient
import NNIS.Rt.Driver
import NNIS.Semantics.Checked
import NNIS.Semantics.Outcome

/-!
# Ternary reference tensors

A tensor is stored as one scale and one of the levels zero, plus one and minus one for each value,
four two-bit codes to a byte. The scale is the largest magnitude, and a value whose magnitude
reaches half the scale is stored as the level of its sign. The functions are those of
`nnis-model/src/int2_reference.rs`.

## Main definitions

* `Int2ReferenceQuantizedTensorV1`, `Int2ReferenceQuantizedTensorV1.canonicalSerializedBytes`.
* `quantizeInt2TernaryReferenceV1`, `dequantizeInt2TernaryReferenceV1`.

## Main results

* `quantizeInt2_of_finite` — finite values are stored.
* `dequantizeInt2_eq_ok` — a stored tensor has one value for each code.
-/

set_option autoImplicit false

namespace NNIS

/-- Magic, element count and scale. -/
def nnisInt2ReferenceSerializedHeaderBytes : ℕ := 16

/-- The code of zero. -/
def nnisInt2ReferenceCodeZero : UInt8 := 0

/-- The code of plus one. -/
def nnisInt2ReferenceCodePositive : UInt8 := 1

/-- The code of minus one. -/
def nnisInt2ReferenceCodeNegative : UInt8 := 2

/-- A code that no stored tensor contains. -/
def nnisInt2ReferenceCodeReserved : UInt8 := 3

/-- The stored form of one tensor. -/
structure Int2ReferenceQuantizedTensorV1 where
  elementCount : ℕ
  scale : F32
  packedValues : List UInt8
  maxAbsError : F32
  meanSquaredError : F64

/-- The code at a position of a payload. -/
def int2CodeAt (packed : List UInt8) (index : ℕ) : UInt8 := laneAt 2 4 packed index

/-- The level that a code stands for. -/
def int2Level (code : UInt8) : Except NnisError F32 :=
  if code = nnisInt2ReferenceCodeZero then .ok (.zero false)
  else if code = nnisInt2ReferenceCodePositive then .ok (.ofBits 0x3F800000)
  else if code = nnisInt2ReferenceCodeNegative then .ok (.ofBits 0xBF800000)
  else .error (.invalidInput "INT2 reference payload contains reserved code 3")

/-- What every user of a stored tensor checks first. -/
def validateQuantizedTensor (quantized : Int2ReferenceQuantizedTensorV1) : Except NnisError Unit :=
  if quantized.elementCount = 0 then
    .error (.invalidInput "INT2 reference tensor has zero logical elements")
  else if !quantized.scale.isFinite || quantized.scale.le (.zero false) then
    .error (.invalidInput "INT2 reference tensor scale must be finite and positive")
  else if !validEvidence quantized.maxAbsError quantized.meanSquaredError then
    .error (.invalidInput "INT2 reference reconstruction evidence is invalid")
  else
    match checkedAdd quantized.elementCount 3 with
    | none => .error (.invalidInput "INT2 payload size overflows usize")
    | some padded =>
      if quantized.packedValues.length ≠ padded / 4 then
        .error (.invalidInput
          (s!"INT2 packed payload has {quantized.packedValues.length} bytes; " ++
          s!"expected {padded / 4}"))
      else if (List.range quantized.elementCount).any fun index =>
          int2CodeAt quantized.packedValues index == nnisInt2ReferenceCodeReserved then
        .error (.invalidInput "INT2 reference payload contains reserved code 3")
      else .ok ⟨⟩

/-- Magic, element count, scale and payload. -/
def Int2ReferenceQuantizedTensorV1.encoded (quantized : Int2ReferenceQuantizedTensorV1) :
    List UInt8 :=
  -- `NI21`
  [0x4E, 0x49, 0x32, 0x31] ++ leBytes 8 quantized.elementCount ++ quantized.scale.toLeBytes ++
    quantized.packedValues

/-- The canonical bytes of a stored tensor. -/
def Int2ReferenceQuantizedTensorV1.canonicalSerializedBytes
    (quantized : Int2ReferenceQuantizedTensorV1) : Except NnisError (List UInt8) := do
  validateQuantizedTensor quantized
  match checkedAdd nnisInt2ReferenceSerializedHeaderBytes quantized.packedValues.length with
  | none => .error (.invalidInput "INT2 serialized size overflows usize")
  | some _ => .ok quantized.encoded

/-- The largest magnitude of finite values. -/
def int2MaxAbs (values : List F32) : Except NnisError F32 :=
  maxAbsOf (fun index => .invalidInput s!"INT2 reference source value {index} is not finite") values

/-- The code of a value and its level. -/
def int2Code (threshold value : F32) : UInt8 × F32 :=
  if threshold.le value then (nnisInt2ReferenceCodePositive, .ofBits 0x3F800000)
  else if value.le threshold.neg then (nnisInt2ReferenceCodeNegative, .ofBits 0xBF800000)
  else (nnisInt2ReferenceCodeZero, .zero false)

/-- The payload of values and the report of their errors. -/
def int2Encode (scale threshold : F32) (packedLen : ℕ) (values : List F32) :
    List UInt8 × ReconstructionError :=
  packReport 2 4 packedLen (fun value => (int2Code threshold value).1)
    (fun value => (int2Code threshold value).2.mul scale) values

/-- The stored form of values. -/
def quantizeInt2TernaryReferenceV1 (values : List F32) :
    Except NnisError Int2ReferenceQuantizedTensorV1 :=
  if values = [] then
    .error (.invalidInput "INT2 reference quantization requires at least one value")
  else do
    let maxAbs ← int2MaxAbs values
    let scale : F32 := if maxAbs.isZero then .ofBits 0x3F800000 else maxAbs
    if !scale.isFinite || scale.le (.zero false) then
      .error (.invalidInput "INT2 reference scale is not a finite positive F32 value")
    else
      let threshold := scale.mul (.ofBits 0x3F000000)
      match checkedAdd values.length 3 with
      | none => .error (.invalidInput "INT2 element count overflows usize")
      | some padded => do
        let (packedValues, report) := int2Encode scale threshold (padded / 4) values
        let quantized : Int2ReferenceQuantizedTensorV1 :=
          { elementCount := values.length
            scale := scale
            packedValues := packedValues
            maxAbsError := report.maxAbsError
            meanSquaredError := report.meanSquaredError values.length }
        validateQuantizedTensor quantized
        .ok quantized

/-- The values of a stored tensor. -/
def dequantizeInt2TernaryReferenceV1 (quantized : Int2ReferenceQuantizedTensorV1) :
    Except NnisError (List F32) := do
  validateQuantizedTensor quantized
  (List.range quantized.elementCount).mapM fun index => do
    let level ← int2Level (int2CodeAt quantized.packedValues index)
    .ok (level.mul quantized.scale)

/-! ### What has been stored is accepted back -/

theorem validateQuantizedTensor_eq_ok_iff {quantized : Int2ReferenceQuantizedTensorV1} :
    validateQuantizedTensor quantized = .ok ⟨⟩ ↔
      0 < quantized.elementCount ∧ quantized.scale.isFinite = true ∧
        quantized.scale.le (.zero false) = false ∧
        validEvidence quantized.maxAbsError quantized.meanSquaredError = true ∧
        quantized.elementCount + 3 < wordLimit ∧
        quantized.packedValues.length = (quantized.elementCount + 3) / 4 ∧
        ∀ index < quantized.elementCount,
          int2CodeAt quantized.packedValues index ≠ nnisInt2ReferenceCodeReserved := by
  rw [validateQuantizedTensor, Except.ite_error_eq_ok_iff, Except.ite_error_eq_ok_iff,
    Except.ite_error_eq_ok_iff, Nat.pos_iff_ne_zero, checkedAdd]
  simp only [Bool.or_eq_true, Bool.not_eq_true', not_or, Bool.not_eq_false, Bool.not_eq_true,
    and_assoc]
  refine and_congr_right fun _ => and_congr_right fun _ => and_congr_right fun _ =>
    and_congr_right fun _ => ?_
  by_cases hfit : quantized.elementCount + 3 < wordLimit
  · rw [if_pos hfit]
    simp only [Except.ite_error_eq_ok_iff, hfit, true_and, not_not, List.any_eq_true,
      List.mem_range, beq_iff_eq, not_exists, not_and, and_true, ne_eq]
  · rw [if_neg hfit]
    simp only [hfit, false_and, reduceCtorEq]

/-- A stored tensor has canonical bytes: a header and the payload. -/
theorem canonicalSerializedBytes_eq_ok {quantized : Int2ReferenceQuantizedTensorV1}
    (h : validateQuantizedTensor quantized = .ok ⟨⟩) :
    quantized.canonicalSerializedBytes = .ok quantized.encoded ∧
      quantized.encoded.length =
        nnisInt2ReferenceSerializedHeaderBytes + quantized.packedValues.length ∧
      nnisInt2ReferenceSerializedHeaderBytes + quantized.packedValues.length < wordLimit := by
  obtain ⟨-, -, -, -, hfit, hlength, -⟩ := validateQuantizedTensor_eq_ok_iff.1 h
  have hsize : nnisInt2ReferenceSerializedHeaderBytes + quantized.packedValues.length <
      wordLimit := by
    rw [hlength]
    unfold nnisInt2ReferenceSerializedHeaderBytes wordLimit at *
    omega
  refine ⟨?_, ?_, hsize⟩
  · rw [Int2ReferenceQuantizedTensorV1.canonicalSerializedBytes, h, Except.ok_bind,
      checkedAdd_of_lt hsize]
  · rw [Int2ReferenceQuantizedTensorV1.encoded, List.length_append, List.length_append,
      List.length_append, length_leBytes, F32.length_toLeBytes]
    rfl

/-- The value that a code stands for under a scale. -/
def int2Value (scale : F32) (code : UInt8) : F32 :=
  match int2Level code with
  | .ok level => level.mul scale
  | .error _ => .zero false

private theorem exists_int2Level {code : UInt8} (hlt : code.toNat < 4)
    (hne : code ≠ nnisInt2ReferenceCodeReserved) : ∃ level, int2Level code = .ok level := by
  have hcases : ∀ n : Fin 4, UInt8.ofNat n ≠ nnisInt2ReferenceCodeReserved →
      (int2Level (UInt8.ofNat n)).isOk = true := by decide
  have hcode : code = UInt8.ofNat (⟨code.toNat, hlt⟩ : Fin 4) := UInt8.ofNat_toNat.symm
  rw [hcode] at hne ⊢
  have hok := hcases _ hne
  cases hlevel : int2Level (UInt8.ofNat (⟨code.toNat, hlt⟩ : Fin 4)) with
  | ok level => exact ⟨level, rfl⟩
  | error e =>
    rw [hlevel] at hok
    exact nomatch hok

/-- A stored tensor has values, one for each code. -/
theorem dequantizeInt2_eq_ok {quantized : Int2ReferenceQuantizedTensorV1}
    (h : validateQuantizedTensor quantized = .ok ⟨⟩) :
    dequantizeInt2TernaryReferenceV1 quantized =
      .ok ((List.range quantized.elementCount).map fun index =>
        int2Value quantized.scale (int2CodeAt quantized.packedValues index)) := by
  obtain ⟨-, -, -, -, -, -, hcodes⟩ := validateQuantizedTensor_eq_ok_iff.1 h
  rw [dequantizeInt2TernaryReferenceV1, h, Except.ok_bind]
  refine mapM_eq_ok fun index hindex => ?_
  have hlt : (int2CodeAt quantized.packedValues index).toNat < 2 ^ 2 :=
    laneAt_lt (by decide) (by decide) (by decide) _ _
  obtain ⟨level, hlevel⟩ := exists_int2Level hlt (hcodes index (List.mem_range.1 hindex))
  rw [hlevel, Except.ok_bind, int2Value, hlevel]

/-! ### Finite values are stored -/

private theorem units_one : (Binary.ofBits 0x3F800000 : F32).units = 2 ^ binary32.point := rfl

private theorem units_minusOne : (Binary.ofBits 0xBF800000 : F32).units = 2 ^ binary32.point := rfl

/-- The scale of finite values: positive, finite and a bound of their magnitudes. -/
structure Int2Scale (scale : F32) (values : List F32) : Prop where
  finite : scale.isFinite = true
  sign : scale.negative = false
  positive : 0 < scale.magnitude
  values_finite : ∀ value ∈ values, value.isFinite = true
  bound : ∀ value ∈ values, value.magnitude ≤ scale.magnitude

private theorem mul_scale {scale level : F32} (hscale : scale.isFinite = true)
    (hlevel : level.isFinite = true) (hunits : level.units ≤ 2 ^ binary32.point) :
    (level.mul scale).magnitude ≤ scale.magnitude ∧ (level.mul scale).isFinite = true := by
  have hle : (level.mul scale).magnitude ≤ scale.magnitude := by
    refine Binary.magnitude_mul_le hlevel hscale ?_
    rw [Nat.mul_comm]
    exact Nat.mul_le_mul_left _ hunits
  exact ⟨hle, Binary.isFinite_of_magnitude_le hle (of_decide_eq_true hscale)⟩

/-- A value differs from what it is stored as by at most the scale. -/
private theorem int2Code_error {scale threshold value : F32} (hscale : scale.isFinite = true)
    (hsign : scale.negative = false) (hthreshold : threshold.negative = false)
    (hbound : value.magnitude ≤ scale.magnitude) :
    ((int2Code threshold value).2.mul scale).isFinite = true ∧
      (value.signedUnits - ((int2Code threshold value).2.mul scale).signedUnits).natAbs ≤
        binary32.units scale.magnitude := by
  have hvalue : value.signedUnits.natAbs ≤ binary32.units scale.magnitude := by
    rw [Binary.natAbs_signedUnits]
    exact Binary.units_le_of_magnitude_le hbound
  have hlevel : ∀ level : F32, level.isFinite = true → level.units ≤ 2 ^ binary32.point →
      (level.mul scale).signedUnits.natAbs ≤ binary32.units scale.magnitude := by
    intro level hfinite hunits
    rw [Binary.natAbs_signedUnits]
    exact Binary.units_le_of_magnitude_le (mul_scale hscale hfinite hunits).1
  rw [int2Code]
  split_ifs with hpositive hnegative <;> dsimp only
  · -- The value and the scale are both nonnegative.
    have hv : 0 ≤ value.signedUnits := Binary.signedUnits_nonneg_of_key
      ((Binary.key_nonneg hthreshold).trans (Binary.key_le_of_le hpositive))
    have hr := Binary.signedUnits_nonneg (x := (Binary.ofBits 0x3F800000 : F32).mul scale)
      (by rw [Binary.negative_mul rfl hscale, hsign]; rfl)
    have hbound' := hlevel _ rfl units_one.le
    exact ⟨(mul_scale hscale rfl units_one.le).2, by omega⟩
  · -- Both are at most zero.
    have hv : 0 ≤ -value.signedUnits := by
      rw [← Binary.signedUnits_neg]
      refine Binary.signedUnits_nonneg_of_key ?_
      have hle := Binary.key_le_of_le hnegative
      rw [Binary.key_neg] at hle ⊢
      have hnonneg := Binary.key_nonneg hthreshold
      omega
    have hr : 0 ≤ -((Binary.ofBits 0xBF800000 : F32).mul scale).signedUnits := by
      rw [← Binary.signedUnits_neg]
      refine Binary.signedUnits_nonneg ?_
      change (!((Binary.ofBits 0xBF800000 : F32).mul scale).negative) = false
      rw [Binary.negative_mul rfl hscale, hsign]
      rfl
    have hbound' := hlevel _ rfl units_minusOne.le
    exact ⟨(mul_scale hscale rfl units_minusOne.le).2, by omega⟩
  · have hzero : ((Binary.zero false : F32).mul scale).magnitude ≤ 0 := by
      refine Binary.magnitude_mul_le rfl hscale ?_
      exact (Nat.zero_mul _).le.trans (Nat.zero_le _)
    have hunits := Binary.units_le_of_magnitude_le hzero
    have hr := Binary.natAbs_signedUnits ((Binary.zero false : F32).mul scale)
    have hnone : binary32.units 0 = 0 := rfl
    refine ⟨Binary.isFinite_of_magnitude_le hzero (by decide), ?_⟩
    omega

/-- The scale of values: their largest magnitude, or one. -/
def int2ScaleUnits (values : List F32) : ℕ :=
  if maxUnits values = 0 then 2 ^ binary32.point else maxUnits values

/-- What finite values are stored as: a scale that is their largest magnitude and a code for
each. -/
structure Int2Stored (values : List F32) (quantized : Int2ReferenceQuantizedTensorV1) : Prop where
  elementCount_eq : quantized.elementCount = values.length
  scale_finite : quantized.scale.isFinite = true
  scale_sign : quantized.scale.negative = false
  scale_units : quantized.scale.units = int2ScaleUnits values
  code_eq : ∀ index value, values[index]? = some value →
    int2CodeAt quantized.packedValues index =
      (int2Code (quantized.scale.mul (.ofBits 0x3F000000)) value).1

private theorem exists_int2Stored {values : List F32} {quantized : Int2ReferenceQuantizedTensorV1}
    (hvalid : validateQuantizedTensor quantized = .ok ⟨⟩) (hstored : Int2Stored values quantized) :
    ∃ stored, (validateQuantizedTensor quantized >>= fun _ => .ok quantized) = .ok stored ∧
      validateQuantizedTensor stored = .ok ⟨⟩ ∧ Int2Stored values stored :=
  ⟨quantized, by rw [hvalid]; rfl, hvalid, hstored⟩

/-- Finite values are stored, as many as a host slice can hold. -/
theorem quantizeInt2_of_finite {values : List F32} (hne : values ≠ [])
    (hfinite : ∀ value ∈ values, value.isFinite = true) (hlength : values.length * 4 ≤ isizeMax) :
    ∃ quantized, quantizeInt2TernaryReferenceV1 values = .ok quantized ∧
      validateQuantizedTensor quantized = .ok ⟨⟩ ∧ Int2Stored values quantized := by
  have hcount : values.length ≤ 2 ^ 61 := by
    unfold isizeMax at hlength
    omega
  have hpadded : values.length + 3 < wordLimit := by
    unfold wordLimit
    omega
  obtain ⟨maxAbs, hmax, hmaxFinite, hmaxSign, hbound, hmaxUnits⟩ := exists_maxAbsOf _ hfinite
  obtain ⟨scale, hdef, hscale, hunits⟩ : ∃ scale : F32,
      (if maxAbs.isZero then .ofBits 0x3F800000 else maxAbs) = scale ∧ Int2Scale scale values ∧
        scale.units = int2ScaleUnits values := by
    refine ⟨_, rfl, ?_⟩
    rw [int2ScaleUnits, ← hmaxUnits]
    split_ifs with hzero hunits hunits
    · refine ⟨⟨rfl, rfl, by decide, hfinite, fun v hv => ?_⟩, units_one⟩
      have hmagnitude : maxAbs.magnitude = 0 := of_decide_eq_true hzero
      exact ((hbound v hv).trans hmagnitude.le).trans (Nat.zero_le _)
    · exact absurd (Binary.units_eq_zero_iff.2 hzero) hunits
    · exact absurd (Binary.units_eq_zero_iff.1 hunits) hzero
    · refine ⟨⟨hmaxFinite, hmaxSign, Nat.pos_of_ne_zero fun h => hzero ?_, hfinite, hbound⟩, rfl⟩
      exact decide_eq_true h
  have hnotLe : scale.le (.zero false) = false := by
    rw [Binary.le, decide_eq_false, Bool.and_false]
    rw [Binary.key, hscale.sign, Binary.key]
    exact fun h => absurd (Int.ofNat_le.1 h) (Nat.not_le.2 hscale.positive)
  have hthreshold : (scale.mul (.ofBits 0x3F000000)).negative = false := by
    rw [Binary.negative_mul hscale.finite rfl, hscale.sign]
    rfl
  have hcodes : ∀ code ∈ values.map fun value =>
      (int2Code (scale.mul (.ofBits 0x3F000000)) value).1, code ≠ nnisInt2ReferenceCodeReserved ∧
        code.toNat < 2 ^ 2 := by
    intro code hcode
    obtain ⟨value, -, rfl⟩ := List.mem_map.1 hcode
    rw [int2Code]
    split_ifs <;> exact ⟨by decide, by decide⟩
  obtain ⟨hlen, hread⟩ := laneAt_packLanes 2 4 ((values.length + 3) / 4) (by decide)
    (by decide) (by decide) (fun code hcode => (hcodes code hcode).2)
    (by rw [List.length_map]; omega)
  have hreport := ReconstructionError.over_bounded hfinite (of_decide_eq_true hscale.finite)
    (fun value hv => int2Code_error hscale.finite hscale.sign hthreshold (hscale.bound value hv))
    hcount
  rw [quantizeInt2TernaryReferenceV1, if_neg hne, int2MaxAbs, hmax, Except.ok_bind]
  simp only [hdef, hscale.finite, hnotLe, Bool.not_true, Bool.or_self, Bool.false_eq_true,
    ↓reduceIte, checkedAdd_of_lt hpadded, int2Encode, packReport_eq]
  refine exists_int2Stored (validateQuantizedTensor_eq_ok_iff.2 ⟨List.length_pos_of_ne_nil hne,
    hscale.finite, hnotLe, ReconstructionError.validEvidence_of_bounded hreport
      (List.length_pos_of_ne_nil hne) hcount, hpadded, hlen, fun index hindex => ?_⟩)
    ⟨rfl, hscale.finite, hscale.sign, hunits, fun index value hvalue => ?_⟩
  · rw [int2CodeAt, hread, List.getD_eq_getElem?_getD, List.getElem?_eq_getElem
      (by rwa [List.length_map])]
    exact (hcodes _ (List.getElem_mem _)).1
  · rw [int2CodeAt, hread, List.getD_eq_getElem?_getD, List.getElem?_map, hvalue]
    rfl

end NNIS
