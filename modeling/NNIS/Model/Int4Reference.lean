import NNIS.Codec.SelfDelimiting
import NNIS.Memory.Lane
import NNIS.Model.ReconstructionError
import NNIS.Numeric.Bytes
import NNIS.Numeric.Multiples
import NNIS.Rt.Driver
import NNIS.Semantics.Checked
import NNIS.Semantics.Outcome

/-!
# Signed four-bit reference tensors

A tensor is stored as one scale and one integer between minus seven and seven for each value, two
four-bit codes to a byte, the low half first; the code of minus eight is reserved. The functions
are those of `nnis-model/src/int4_reference.rs`.

## Main definitions

* `Int4ReferenceQuantizedTensorV1`, `Int4ReferenceQuantizedTensorV1.canonicalSerializedBytes`.
* `dequantizeInt4SymmetricReferenceV1`.

## Main results

* `dequantizeInt4_eq_ok` — a valid tensor has one value for each code.
* `int4Value_inj` — codes with the same finite value are equal.
-/

set_option autoImplicit false

namespace NNIS

/-- Magic, element count and scale. -/
def nnisInt4ReferenceSerializedHeaderBytes : ℕ := 16

/-- The stored form of one tensor. -/
structure Int4ReferenceQuantizedTensorV1 where
  elementCount : ℕ
  scale : F32
  packedValues : List UInt8
  maxAbsError : F32
  meanSquaredError : F64

/-- The code at a position of a payload. -/
def int4Nibble (packed : List UInt8) (index : ℕ) : UInt8 :=
  let byte := packed.getD (index / 2) 0
  if index % 2 = 0 then byte &&& 0x0f else (byte >>> 4) &&& 0x0f

/-- The integer that a code stands for. -/
def int4Signed (nibble : UInt8) : ℤ :=
  if nibble &&& 0x08 ≠ 0 then nibble.toNat - 16 else nibble.toNat

/-- What every user of a stored tensor checks first. -/
def Int4ReferenceQuantizedTensorV1.validateQuantizedTensor
    (quantized : Int4ReferenceQuantizedTensorV1) : Except NnisError Unit :=
  if quantized.elementCount = 0 then
    .error (.invalidInput "INT4 reference tensor has zero logical elements")
  else if !quantized.scale.isFinite || quantized.scale.le (.zero false) then
    .error (.invalidInput "INT4 reference tensor scale must be finite and positive")
  else if !validEvidence quantized.maxAbsError quantized.meanSquaredError then
    .error (.invalidInput "INT4 reference reconstruction evidence is invalid")
  else
    match checkedAdd quantized.elementCount 1 with
    | none => .error (.invalidInput "INT4 payload size overflows usize")
    | some padded =>
      if quantized.packedValues.length ≠ padded / 2 then
        .error (.invalidInput
          (s!"INT4 packed payload has {quantized.packedValues.length} bytes; " ++
          s!"expected {padded / 2}"))
      else if (List.range quantized.elementCount).any fun index =>
          int4Nibble quantized.packedValues index == 0x08 then
        .error (.invalidInput "INT4 reference payload contains reserved -8 code")
      else .ok ⟨⟩

/-- Magic, element count, scale and payload. -/
def Int4ReferenceQuantizedTensorV1.encoded (quantized : Int4ReferenceQuantizedTensorV1) :
    List UInt8 :=
  -- `NI41`
  [0x4E, 0x49, 0x34, 0x31] ++ leBytes 8 quantized.elementCount ++ quantized.scale.toLeBytes ++
    quantized.packedValues

/-- The canonical bytes of a stored tensor. -/
def Int4ReferenceQuantizedTensorV1.canonicalSerializedBytes
    (quantized : Int4ReferenceQuantizedTensorV1) : Except NnisError (List UInt8) := do
  quantized.validateQuantizedTensor
  match checkedAdd nnisInt4ReferenceSerializedHeaderBytes quantized.packedValues.length with
  | none => .error (.invalidInput "INT4 serialized size overflows usize")
  | some _ => .ok quantized.encoded

/-- The values of a stored tensor. -/
def dequantizeInt4SymmetricReferenceV1 (quantized : Int4ReferenceQuantizedTensorV1) :
    Except NnisError (List F32) := do
  quantized.validateQuantizedTensor
  (List.range quantized.elementCount).mapM fun index =>
    let signed := int4Signed (int4Nibble quantized.packedValues index)
    if signed = -8 then
      .error (.invalidInput "INT4 reference payload contains reserved -8 code")
    else .ok ((Binary.ofInt signed).mul quantized.scale)

/-! ### Codes -/

theorem int4Nibble_eq (packed : List UInt8) (index : ℕ) :
    int4Nibble packed index = laneAt 4 2 packed index := by
  rw [int4Nibble, laneAt, lane]
  rcases Nat.mod_two_eq_zero_or_one index with heven | hodd
  · rw [if_pos heven, heven]
    exact congrArg (· &&& 0x0f) (UInt8.shiftRight_zero).symm
  · rw [if_neg (by omega), hodd]
    rfl

theorem int4Nibble_lt (packed : List UInt8) (index : ℕ) :
    (int4Nibble packed index).toNat < 2 ^ 4 := by
  rw [int4Nibble_eq]
  exact laneAt_lt (by decide) (by decide) (by decide) _ _

/-- What the integer of a code is: different integers for different codes, whose words are exact. -/
private theorem int4Signed_cases : ∀ n : Fin 16,
    (int4Signed (UInt8.ofNat n) = -8 → UInt8.ofNat n = 0x08) ∧
      (int4Signed (UInt8.ofNat n)).natAbs < 2 ^ 21 ∧
      ∀ m : Fin 16, (int4Signed (UInt8.ofNat n)).natAbs = (int4Signed (UInt8.ofNat m)).natAbs →
        decide (int4Signed (UInt8.ofNat n) < 0) = decide (int4Signed (UInt8.ofNat m) < 0) →
        n = m := by
  decide

private theorem ofInt_int4Signed : ∀ n : Fin 16,
    let signed := int4Signed (UInt8.ofNat n)
    (Binary.ofInt signed : F32).isFinite = true ∧
      (Binary.ofInt signed : F32).negative = decide (signed < 0) ∧
      (Binary.ofInt signed : F32).units = signed.natAbs * 2 ^ binary32.point := by
  decide +kernel

private theorem ofNat_toNat_fin {nibble : UInt8} (h : nibble.toNat < 2 ^ 4) :
    nibble = UInt8.ofNat (⟨nibble.toNat, h⟩ : Fin 16) := UInt8.ofNat_toNat.symm

theorem int4Signed_ne {nibble : UInt8} (hlt : nibble.toNat < 2 ^ 4) (hne : nibble ≠ 0x08) :
    int4Signed nibble ≠ -8 := by
  rw [ofNat_toNat_fin hlt] at hne ⊢
  exact fun h => hne ((int4Signed_cases _).1 h)

/-- The value that a code stands for under a scale. -/
def int4Value (scale : F32) (nibble : UInt8) : F32 := (Binary.ofInt (int4Signed nibble)).mul scale

/-- Codes with the same finite value are equal. -/
theorem int4Value_inj {scale : F32} {nibble nibble' : UInt8} (hscale : scale.isFinite = true)
    (hpos : 0 < scale.units) (hlt : nibble.toNat < 2 ^ 4) (hlt' : nibble'.toNat < 2 ^ 4)
    (hfinite : (int4Value scale nibble).isFinite = true)
    (heq : int4Value scale nibble = int4Value scale nibble') : nibble = nibble' := by
  rw [ofNat_toNat_fin hlt, ofNat_toNat_fin hlt'] at heq ⊢
  rw [ofNat_toNat_fin hlt] at hfinite
  generalize (⟨nibble.toNat, hlt⟩ : Fin 16) = n at *
  generalize (⟨nibble'.toNat, hlt'⟩ : Fin 16) = m at *
  obtain ⟨hn, hnsign, hnunits⟩ := ofInt_int4Signed n
  obtain ⟨hm, hmsign, hmunits⟩ := ofInt_int4Signed m
  obtain ⟨-, hnlt, hinj⟩ := int4Signed_cases n
  obtain ⟨hmagnitude, hsign⟩ := Binary.eq_of_mul_eq hn hm hscale hpos hnunits hmunits (by decide)
    hnlt (int4Signed_cases m).2.1 heq hfinite
  rw [hnsign, hmsign] at hsign
  rw [hinj m hmagnitude hsign]

/-! ### Valid tensors -/

theorem Int4ReferenceQuantizedTensorV1.validateQuantizedTensor_eq_ok_iff
    {quantized : Int4ReferenceQuantizedTensorV1} :
    quantized.validateQuantizedTensor = .ok ⟨⟩ ↔
      0 < quantized.elementCount ∧ quantized.scale.isFinite = true ∧
        quantized.scale.le (.zero false) = false ∧
        validEvidence quantized.maxAbsError quantized.meanSquaredError = true ∧
        quantized.elementCount + 1 < wordLimit ∧
        quantized.packedValues.length = (quantized.elementCount + 1) / 2 ∧
        ∀ index < quantized.elementCount, int4Nibble quantized.packedValues index ≠ 0x08 := by
  rw [validateQuantizedTensor, Except.ite_error_eq_ok_iff, Except.ite_error_eq_ok_iff,
    Except.ite_error_eq_ok_iff, Nat.pos_iff_ne_zero, checkedAdd]
  simp only [Bool.or_eq_true, Bool.not_eq_true', not_or, Bool.not_eq_false, Bool.not_eq_true,
    and_assoc]
  refine and_congr_right fun _ => and_congr_right fun _ => and_congr_right fun _ =>
    and_congr_right fun _ => ?_
  by_cases hfit : quantized.elementCount + 1 < wordLimit
  · rw [if_pos hfit]
    simp only [Except.ite_error_eq_ok_iff, hfit, true_and, not_not, List.any_eq_true,
      List.mem_range, beq_iff_eq, not_exists, not_and, and_true, ne_eq]
  · rw [if_neg hfit]
    simp only [hfit, false_and, reduceCtorEq]

/-- A valid tensor has canonical bytes. -/
theorem Int4ReferenceQuantizedTensorV1.canonicalSerializedBytes_eq_ok
    {quantized : Int4ReferenceQuantizedTensorV1}
    (h : quantized.validateQuantizedTensor = .ok ⟨⟩) :
    quantized.canonicalSerializedBytes = .ok quantized.encoded := by
  obtain ⟨-, -, -, -, hfit, hlength, -⟩ := validateQuantizedTensor_eq_ok_iff.1 h
  have hsize : nnisInt4ReferenceSerializedHeaderBytes + quantized.packedValues.length <
      wordLimit := by
    rw [hlength]
    unfold nnisInt4ReferenceSerializedHeaderBytes wordLimit at *
    omega
  rw [canonicalSerializedBytes, h, Except.ok_bind, checkedAdd_of_lt hsize]

/-- A valid tensor has values, one for each code. -/
theorem dequantizeInt4_eq_ok {quantized : Int4ReferenceQuantizedTensorV1}
    (h : quantized.validateQuantizedTensor = .ok ⟨⟩) :
    dequantizeInt4SymmetricReferenceV1 quantized =
      .ok ((List.range quantized.elementCount).map fun index =>
        int4Value quantized.scale (int4Nibble quantized.packedValues index)) := by
  obtain ⟨-, -, -, -, -, -, hcodes⟩ :=
    Int4ReferenceQuantizedTensorV1.validateQuantizedTensor_eq_ok_iff.1 h
  rw [dequantizeInt4SymmetricReferenceV1, h, Except.ok_bind]
  refine mapM_eq_ok fun index hindex => ?_
  exact if_neg (int4Signed_ne (int4Nibble_lt _ _) (hcodes index (List.mem_range.1 hindex)))

end NNIS
