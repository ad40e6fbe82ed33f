import NNIS.Model.Int2Reference
import NNIS.Model.Int4Reference

/-!
# Canonical bytes of reference tensors

The canonical bytes of a stored tensor hold its whole payload. Stored tensors of one length and
one scale with the same values can differ in the codes of the last byte that no value uses, which
nothing checks, and in codes whose values overflow to the same infinity. Everything else of the
bytes is determined by the values.

## Main definitions

* `Int4ReferenceQuantizedTensorV1.SameTensor`, `Int2ReferenceQuantizedTensorV1.SameTensor` —
  accepted tensors that stand for the same values.

## Main results

* `canonicalSerializedBytes_eq_iff` — when accepted tensors with the same values have the same
  canonical bytes.
-/

set_option autoImplicit false

namespace NNIS

/-- Accepted tensors of one length and one scale with the same values. -/
structure Int4ReferenceQuantizedTensorV1.SameTensor (a b : Int4ReferenceQuantizedTensorV1) :
    Prop where
  valid_left : a.validateQuantizedTensor = .ok ⟨⟩
  valid_right : b.validateQuantizedTensor = .ok ⟨⟩
  elementCount : a.elementCount = b.elementCount
  scale : a.scale = b.scale
  values : dequantizeInt4SymmetricReferenceV1 a = dequantizeInt4SymmetricReferenceV1 b

/-- Accepted tensors of one length and one scale with the same values. -/
structure Int2ReferenceQuantizedTensorV1.SameTensor (a b : Int2ReferenceQuantizedTensorV1) :
    Prop where
  valid_left : validateQuantizedTensor a = .ok ⟨⟩
  valid_right : validateQuantizedTensor b = .ok ⟨⟩
  elementCount : a.elementCount = b.elementCount
  scale : a.scale = b.scale
  values : dequantizeInt2TernaryReferenceV1 a = dequantizeInt2TernaryReferenceV1 b

/-- The codes of values that overflow agree. -/
def Int4ReferenceQuantizedTensorV1.SameOverflowingCodes (a b : Int4ReferenceQuantizedTensorV1) :
    Prop :=
  ∀ index < a.elementCount,
    ((Binary.ofInt (int4Signed (int4Nibble a.packedValues index))).mul a.scale).isFinite = false →
      int4Nibble a.packedValues index = int4Nibble b.packedValues index

/-- Payloads with the same values are equal when the codes that no value uses, and those whose
values do not determine them, are equal. -/
private theorem payload_eq_iff {width lanes : ℕ} (hbyte : lanes * width = 8) (count : ℕ)
    (value : UInt8 → F32) {packed packed' : List UInt8} (hlength : packed.length = packed'.length)
    (hcount : count ≤ lanes * packed.length)
    (hinj : ∀ index < count, (value (laneAt width lanes packed index)).isFinite = true →
      laneAt width lanes packed index = laneAt width lanes packed' index) :
    packed = packed' ↔ SameUnusedLanes width lanes count packed packed' ∧
      ∀ index < count, (value (laneAt width lanes packed index)).isFinite = false →
        laneAt width lanes packed index = laneAt width lanes packed' index := by
  rw [eq_iff_sameUnusedLanes hbyte hlength hcount]
  refine and_congr_right fun _ => ⟨fun h index hlt _ => h index hlt, fun h index hlt => ?_⟩
  cases hfinite : (value (laneAt width lanes packed index)).isFinite with
  | true => exact hinj index hlt hfinite
  | false => exact h index hlt hfinite

/-! ### Four-bit codes -/

private theorem int4_bytes_eq_iff {a b : Int4ReferenceQuantizedTensorV1} (h : a.SameTensor b) :
    a.canonicalSerializedBytes = b.canonicalSerializedBytes ↔
      SameUnusedLanes 4 2 a.elementCount a.packedValues b.packedValues ∧
        a.SameOverflowingCodes b := by
  obtain ⟨hvalid, hvalid', hcount, hscale, hvalues⟩ := h
  obtain ⟨-, hfinite, hpositive, -, -, hlength, -⟩ :=
    Int4ReferenceQuantizedTensorV1.validateQuantizedTensor_eq_ok_iff.1 hvalid
  obtain ⟨-, -, -, -, -, hlength', -⟩ :=
    Int4ReferenceQuantizedTensorV1.validateQuantizedTensor_eq_ok_iff.1 hvalid'
  rw [dequantizeInt4_eq_ok hvalid, dequantizeInt4_eq_ok hvalid', ← hcount, ← hscale] at hvalues
  have hvalue := List.map_inj_left.1 (Except.ok.inj hvalues)
  have hbytes : a.canonicalSerializedBytes = b.canonicalSerializedBytes ↔
      a.packedValues = b.packedValues := by
    rw [Int4ReferenceQuantizedTensorV1.canonicalSerializedBytes_eq_ok hvalid,
      Int4ReferenceQuantizedTensorV1.canonicalSerializedBytes_eq_ok hvalid', Except.ok.injEq,
      Int4ReferenceQuantizedTensorV1.encoded, Int4ReferenceQuantizedTensorV1.encoded, hcount,
      hscale, List.append_cancel_left_eq]
  rw [hbytes, payload_eq_iff (by decide : 2 * 4 = 8) a.elementCount (int4Value a.scale)
    (by rw [hlength, hlength', hcount]) (by omega)]
  · simp only [Int4ReferenceQuantizedTensorV1.SameOverflowingCodes, int4Nibble_eq, int4Value]
  · intro index hlt hindex
    have hsame := hvalue index (List.mem_range.2 hlt)
    rw [← int4Nibble_eq] at hindex
    rw [← int4Nibble_eq, ← int4Nibble_eq]
    exact int4Value_inj hfinite (Binary.pos_of_not_le_zero hfinite hpositive).2
      (int4Nibble_lt _ _) (int4Nibble_lt _ _) hindex hsame

/-! ### Two-bit codes -/

/-- What the codes stand for: different integers of at most one, whose words are exact. -/
private theorem int2Level_cases : ∀ n : Fin 4, UInt8.ofNat n ≠ nnisInt2ReferenceCodeReserved →
    ∃ level k, int2Level (UInt8.ofNat n) = .ok level ∧ k ≤ 1 ∧ level.isFinite = true ∧
      level.units = k * 2 ^ binary32.point ∧
      n.val = if k = 0 then 0 else if level.negative then 2 else 1
  | 0, _ => ⟨.zero false, 0, rfl, by decide, rfl, by decide, rfl⟩
  | 1, _ => ⟨.ofBits 0x3F800000, 1, rfl, by decide, rfl, by decide +kernel, rfl⟩
  | 2, _ => ⟨.ofBits 0xBF800000, 1, rfl, by decide, rfl, by decide +kernel, rfl⟩
  | 3, h => absurd rfl h

private theorem exists_level {code : UInt8} (hlt : code.toNat < 4)
    (hne : code ≠ nnisInt2ReferenceCodeReserved) :
    ∃ level k, int2Level code = .ok level ∧ k ≤ 1 ∧ level.isFinite = true ∧
      level.units = k * 2 ^ binary32.point ∧
      code.toNat = if k = 0 then 0 else if level.negative then 2 else 1 := by
  have hcode : code = UInt8.ofNat (⟨code.toNat, hlt⟩ : Fin 4) := UInt8.ofNat_toNat.symm
  rw [hcode] at hne
  obtain ⟨level, k, hlevel, h⟩ := int2Level_cases _ hne
  rw [← hcode] at hlevel
  exact ⟨level, k, hlevel, h⟩

/-- The value of a two-bit code is finite, and codes with the same value are equal. -/
theorem int2Value_inj {scale : F32} {code code' : UInt8} (hscale : scale.isFinite = true)
    (hpos : 0 < scale.units) (hlt : code.toNat < 4) (hlt' : code'.toNat < 4)
    (hne : code ≠ nnisInt2ReferenceCodeReserved) (hne' : code' ≠ nnisInt2ReferenceCodeReserved) :
    (int2Value scale code).isFinite = true ∧
      (int2Value scale code = int2Value scale code' → code = code') := by
  obtain ⟨level, k, hlevel, hk, hfinite, hunits, hcode⟩ := exists_level hlt hne
  obtain ⟨level', k', hlevel', hk', hfinite', hunits', hcode'⟩ := exists_level hlt' hne'
  have hproduct : (level.mul scale).isFinite = true := by
    refine Binary.isFinite_of_magnitude_le (Binary.magnitude_mul_le hfinite hscale ?_)
      (of_decide_eq_true hscale)
    rw [Nat.mul_comm]
    refine Nat.mul_le_mul_left _ ?_
    rw [hunits]
    exact (Nat.mul_le_mul_right _ hk).trans (Nat.one_mul _).le
  rw [int2Value, hlevel, int2Value, hlevel']
  refine ⟨hproduct, fun heq => UInt8.toNat_inj.1 ?_⟩
  obtain ⟨hmagnitude, hsign⟩ := Binary.eq_of_mul_eq hfinite hfinite' hscale hpos hunits hunits'
    (by decide) (hk.trans_lt (by decide)) (hk'.trans_lt (by decide)) heq hproduct
  rw [hcode, hcode', hmagnitude, hsign]

private theorem int2_bytes_eq_iff {a b : Int2ReferenceQuantizedTensorV1} (h : a.SameTensor b) :
    a.canonicalSerializedBytes = b.canonicalSerializedBytes ↔
      SameUnusedLanes 2 4 a.elementCount a.packedValues b.packedValues := by
  obtain ⟨hvalid, hvalid', hcount, hscale, hvalues⟩ := h
  obtain ⟨-, hfinite, hpositive, -, -, hlength, hcodes⟩ :=
    validateQuantizedTensor_eq_ok_iff.1 hvalid
  obtain ⟨-, -, -, -, -, hlength', hcodes'⟩ := validateQuantizedTensor_eq_ok_iff.1 hvalid'
  rw [dequantizeInt2_eq_ok hvalid, dequantizeInt2_eq_ok hvalid', ← hcount, ← hscale] at hvalues
  have hvalue := List.map_inj_left.1 (Except.ok.inj hvalues)
  have hbytes : a.canonicalSerializedBytes = b.canonicalSerializedBytes ↔
      a.packedValues = b.packedValues := by
    rw [(canonicalSerializedBytes_eq_ok hvalid).1, (canonicalSerializedBytes_eq_ok hvalid').1,
      Except.ok.injEq, Int2ReferenceQuantizedTensorV1.encoded,
      Int2ReferenceQuantizedTensorV1.encoded, hcount, hscale, List.append_cancel_left_eq]
  have hcode : ∀ (packed : List UInt8) (index : ℕ), (int2CodeAt packed index).toNat < 4 :=
    fun packed index => laneAt_lt (by decide) (by decide) (by decide) packed index
  have hinj : ∀ index < a.elementCount,
      (int2Value a.scale (int2CodeAt a.packedValues index)).isFinite = true ∧
        int2CodeAt a.packedValues index = int2CodeAt b.packedValues index := by
    intro index hlt
    obtain ⟨hvalueFinite, hinj⟩ := int2Value_inj hfinite
      (Binary.pos_of_not_le_zero hfinite hpositive).2 (hcode _ index) (hcode _ index)
      (hcodes index hlt) (hcodes' index (hcount ▸ hlt))
    exact ⟨hvalueFinite, hinj (hvalue index (List.mem_range.2 hlt))⟩
  rw [hbytes, payload_eq_iff (by decide : 4 * 2 = 8) a.elementCount (int2Value a.scale)
    (by rw [hlength, hlength', hcount]) (by omega) fun index hlt _ => (hinj index hlt).2]
  -- No value overflows.
  refine and_iff_left fun index hlt hoverflow => absurd (hinj index hlt).1 ?_
  rw [int2CodeAt, hoverflow]
  exact Bool.false_ne_true

/-! ### Both families -/

/-- Accepted tensors with the same values have the same canonical bytes exactly when the codes
that no value uses agree and, for four-bit codes, those whose values overflow. -/
theorem canonicalSerializedBytes_eq_iff (a b : Int4ReferenceQuantizedTensorV1)
    (c d : Int2ReferenceQuantizedTensorV1) :
    (a.SameTensor b →
      (a.canonicalSerializedBytes = b.canonicalSerializedBytes ↔
        SameUnusedLanes 4 2 a.elementCount a.packedValues b.packedValues ∧
          a.SameOverflowingCodes b)) ∧
      (c.SameTensor d →
        (c.canonicalSerializedBytes = d.canonicalSerializedBytes ↔
          SameUnusedLanes 2 4 c.elementCount c.packedValues d.packedValues)) :=
  ⟨int4_bytes_eq_iff, int2_bytes_eq_iff⟩

/-- Two accepted tensors of one value zero, which differ in the codes that no value uses. -/
theorem exists_sameTensor_ne :
    (∃ a b : Int4ReferenceQuantizedTensorV1, a.SameTensor b ∧
        a.canonicalSerializedBytes ≠ b.canonicalSerializedBytes) ∧
      ∃ c d : Int2ReferenceQuantizedTensorV1, c.SameTensor d ∧
        c.canonicalSerializedBytes ≠ d.canonicalSerializedBytes := by
  refine ⟨⟨⟨1, .ofBits 0x3F800000, [0x00], .zero false, .zero false⟩,
    ⟨1, .ofBits 0x3F800000, [0x10], .zero false, .zero false⟩,
    ⟨rfl, rfl, rfl, rfl, ?_⟩, fun h => ?_⟩,
    ⟨1, .ofBits 0x3F800000, [0x00], .zero false, .zero false⟩,
    ⟨1, .ofBits 0x3F800000, [0x04], .zero false, .zero false⟩,
    ⟨rfl, rfl, rfl, rfl, rfl⟩, fun h => ?_⟩
  · rw [dequantizeInt4_eq_ok rfl, dequantizeInt4_eq_ok rfl]
    have hcode : int4Nibble [0x00] 0 = int4Nibble [0x10] 0 := by decide
    exact congrArg (fun code => Except.ok [int4Value (.ofBits 0x3F800000) code]) hcode
  · exact absurd (Except.ok.inj h) (by decide)
  · exact absurd (Except.ok.inj h) (by decide)

end NNIS
