import NNIS.Core.KvFp4
import NNIS.Cpu.Device
import NNIS.Memory.Nibble
import NNIS.Memory.Slice
import NNIS.Numeric.Quotient

/-!
# FP4 E2M1 group-scaled KV blocks

The CPU reference encoder and decoder of `nnis-cpu/src/fp4_kv.rs`. Value `2 i` of a row's padded
code stream is the low half of byte `i` of the row, value `2 i + 1` the high half; each group of a
row has one scale. The rounded binary logarithm by which the search for a power of two begins is the
platform's and is a parameter. The product of a magnitude and a scale has at most 28 significant
digits, so in double precision it is exact and a code is decoded by one rounding to single
precision.

## Main definitions

* `CpuFp4Error`, `CpuFp4E2M1KvBlockV1`.
* `CpuFp4E2M1KvBlockV1.encode`, `CpuFp4E2M1KvBlockV1.fromParts`, `CpuFp4E2M1KvBlockV1.decode`,
  `CpuFp4E2M1KvBlockV1.scale`.
* `chooseScale`, `quantize`, `decodeCode`.

## Main results

* `decodeCode_eq_rounded` — one rounding.
* `decodeCode_convert` — under a scale in single precision.
* `decodeCode_pow2` — under a power of two.
-/

set_option autoImplicit false

namespace NNIS

/-- Fail-closed CPU FP4 errors. -/
inductive CpuFp4Error
  | layout (error : Fp4LayoutError)
  | valueCountMismatch (expected actual : ℕ)
  | nonFiniteValue (index : ℕ)
  | codeBytesMismatch (expected actual : ℕ)
  | scaleBytesMismatch (expected actual : ℕ)
  | invalidScale (group : ℕ)
  | nonZeroPadding (row position : ℕ)
  | decodeOverflow (group : ℕ)
  | hostIndexOverflow
  | allocationFailed
  deriving DecidableEq

/-- The text of an error. -/
def CpuFp4Error.text : CpuFp4Error → String
  | layout error => s!"FP4 layout: {error.text}"
  | valueCountMismatch expected actual => s!"FP4 value count {actual} does not match {expected}"
  | nonFiniteValue index => s!"FP4 input value {index} is not finite"
  | codeBytesMismatch expected actual => s!"FP4 code bytes {actual} do not match {expected}"
  | scaleBytesMismatch expected actual => s!"FP4 scale bytes {actual} do not match {expected}"
  | invalidScale group => s!"FP4 group {group} scale is invalid"
  | nonZeroPadding row position =>
    s!"FP4 padding code at row {row} position {position} is non-zero"
  | decodeOverflow group => s!"FP4 group {group} would decode to a non-finite value"
  | hostIndexOverflow => "FP4 size does not fit host indexing"
  | allocationFailed => "FP4 host allocation failed"

/-- A computation on the host that may return an error or panic. -/
abbrev Fp4M (α : Type) := Fallible Allocator (Stop CpuFp4Error) α

/-- FP4 E2M1 group-scaled KV block. -/
structure CpuFp4E2M1KvBlockV1 where
  layout : Fp4E2M1KvLayoutV1
  codes : List UInt8
  scales : List UInt8

/-! ### Host sizes -/

/-- A size as a host index. -/
def hostLen (value : ℕ) : Outcome CpuFp4Error ℕ :=
  .okOr (if value < wordLimit then some value else none) .hostIndexOverflow

/-- A fresh vector of zero bytes. -/
def zeroed (len : ℕ) : Fp4M (List UInt8) := do
  match ← tryReserveExact len with
  | .ok _ => pure (List.replicate len 0)
  | .error _ => .ofExcept (Outcome.raise .allocationFailed)

/-! ### Scales and codes -/

/-- `2 ^ k` for `k` in the normal exponent range of double precision. -/
def pow2 (k : ℤ) : F64 := .ofBits (((k + 1023) % 2 ^ 64).toNat * 2 ^ 52 % 2 ^ 64)

/-- The code at a position of a row. -/
def nibble (rowCodes : List UInt8) (position : ℕ) : Outcome CpuFp4Error UInt8 := do
  let byte ← .index rowCodes (position / 2)
  pure (if position % 2 = 0 then byte &&& 0x0F else byte >>> 4)

/-- The largest magnitude of a group. -/
def groupAmax (values : List F32) : F32 :=
  values.foldl (fun max value => max.max value.abs) (.zero false)

/-- Largest finite E2M1 magnitude in double precision. -/
def fp4Max : F64 := fp4E2m1MaxMagnitude.convert binary64

/-- Lower the exponent `e - 127` while the next lower power of two still covers `amax`. -/
def lowerExponent (amax : F64) : ℕ → ℕ
  | 0 => 0
  | e + 1 =>
    if amax.le (fp4Max.mul (pow2 ((e + 1 : ℕ) - 127 - 1))) then lowerExponent amax e else e + 1

/-- Raise the exponent `127 - left` while its power of two does not cover `amax`. -/
def raiseExponent (amax : F64) (group : ℕ) : ℕ → Outcome CpuFp4Error ℕ
  | 0 => if (fp4Max.mul (pow2 127)).lt amax then .raise (.decodeOverflow group) else pure 254
  | left + 1 =>
    if (fp4Max.mul (pow2 (127 - (left + 1 : ℕ)))).lt amax then raiseExponent amax group left
    else pure (254 - (left + 1))

/-- The scale of a group and its stored bytes. The exponents of the search are kept as the byte
`k + 127`. -/
def chooseScale (log2Ceil : F64 → ℤ) (encoding : Fp4ScaleEncodingV1) (values : List F32)
    (group : ℕ) : Outcome CpuFp4Error (F64 × List UInt8) :=
  let amax := groupAmax values
  match encoding with
  | .f32 =>
    let quotient := amax.div fp4E2m1MaxMagnitude
    -- Subnormal amax underflowed; use the smallest positive scale.
    let scale := if (Binary.zero false).lt amax && quotient.isZero then .ofBits 1 else quotient
    pure (scale.convert binary64, F32.toLeBytes scale)
  | .e8m0 =>
    if amax.isZero then pure (pow2 (-127), [0, 0, 0, 0])
    else do
      let amax := amax.convert binary64
      let k := max (-127) (min 127 (log2Ceil (amax.div fp4Max)))
      let lowered := lowerExponent amax (k + 127).toNat
      let e ← raiseExponent amax group (254 - lowered)
      pure (pow2 (e - 127), [UInt8.ofNat e, 0, 0, 0])

/-- The magnitude code nearest to a scaled magnitude, ties to the even code. -/
def magnitudeCode (x : F64) : UInt8 :=
  let magnitude (index : Fin 8) := (fp4E2m1Magnitudes index).convert binary64
  match (List.finRange 7).find? fun index => x.lt (magnitude index.succ) with
  | none => 7
  | some index =>
    let mid := ((magnitude index.castSucc).add (magnitude index.succ)).div (.ofBits (2 ^ 62))
    if x.lt mid then .ofNat index
    else if mid.lt x then .ofNat index + 1
    else if index.val % 2 = 0 then .ofNat index
    else .ofNat index + 1

/-- The code of a value under a scale. -/
def quantize (value : F32) (scale : F64) : UInt8 :=
  let sign := if value.negative then 0x8 else 0x0
  if scale.isZero then sign
  else sign ||| magnitudeCode ((value.abs.convert binary64).div scale)

/-- The value of a code under a scale. -/
def decodeCode (code : UInt8) (scale : F64) : F32 :=
  let index : Fin 8 := ⟨(code &&& 0x7).toNat, by
    rw [UInt8.toNat_and]
    exact Nat.lt_of_le_of_lt Nat.and_le_right (by decide)⟩
  let magnitude := (((fp4E2m1Magnitudes index).convert binary64).mul scale).convert binary32
  if code &&& 0x8 ≠ 0 then magnitude.neg else magnitude

namespace CpuFp4E2M1KvBlockV1

/-! ### Encoding -/

/-- The codes of a row after one more value of a group: its code joined to the byte of its
position. -/
def encodeValue (scale : F64) (groupIndex start : ℕ) (rowCodes : List UInt8)
    (entry : F32 × ℕ) : Outcome CpuFp4Error (List UInt8) := do
  let code := quantize entry.1 scale
  .require ((decodeCode code scale).isFinite = true) (.decodeOverflow groupIndex)
  let position := start + entry.2
  .modifyAt rowCodes (position / 2) fun byte =>
    byte ||| (code <<< (if position % 2 = 0 then 0 else 4))

/-- The codes of a row and the scales after one more group of the row. -/
def encodeGroup (log2Ceil : F64 → ℤ) (layout : Fp4E2M1KvLayoutV1) (row : ℕ)
    (rowValues : List F32) (state : List UInt8 × List UInt8) (group : ℕ) :
    Outcome CpuFp4Error (List UInt8 × List UInt8) := do
  let start := group * layout.groupSize
  let stop := min layout.rowWidth (start + layout.groupSize)
  let groupValues ← .slice rowValues start stop
  let groupIndex := row * layout.groupsPerRow + group
  let (scale, scaleBytesLe) ← chooseScale log2Ceil layout.scaleEncoding groupValues groupIndex
  let bytes ← .slice scaleBytesLe 0 layout.scaleEncoding.bytes
  let scales ← .copyAt state.2 (groupIndex * layout.scaleEncoding.bytes) bytes
  let rowCodes ← groupValues.zipIdx.foldlM (encodeValue scale groupIndex start) state.1
  pure (rowCodes, scales)

/-- The codes and the scales after one more row. -/
def encodeRow (log2Ceil : F64 → ℤ) (layout : Fp4E2M1KvLayoutV1) (codeBytesPerRow : ℕ)
    (values : List F32) (state : List UInt8 × List UInt8) (row : ℕ) :
    Outcome CpuFp4Error (List UInt8 × List UInt8) := do
  let rowValues := region values (row * layout.rowWidth) layout.rowWidth
  let rowCodes ← .slice state.1 (row * codeBytesPerRow) ((row + 1) * codeBytesPerRow)
  let (rowCodes, scales) ← (List.range layout.groupsPerRow).foldlM
    (encodeGroup log2Ceil layout row rowValues) (rowCodes, state.2)
  let codes ← .copyAt state.1 (row * codeBytesPerRow) rowCodes
  pure (codes, scales)

/-- Encode dense finite row-major values under a layout. -/
def encode (log2Ceil : F64 → ℤ) (layout : Fp4E2M1KvLayoutV1) (values : List F32) :
    Fp4M CpuFp4E2M1KvBlockV1 := do
  let storage ← .ofExcept (Outcome.wrap .layout layout.storage)
  let expected ← .ofExcept (hostLen storage.logicalValues)
  .ofExcept (Outcome.require (values.length = expected)
    (.valueCountMismatch expected values.length))
  match values.findIdx? fun value => !value.isFinite with
  | some index => .ofExcept (Outcome.raise (.nonFiniteValue index))
  | none =>
    let codes ← zeroed (← .ofExcept (hostLen storage.codeBytes))
    let scales ← zeroed (← .ofExcept (hostLen storage.scaleBytes))
    let codeBytesPerRow ← .ofExcept (hostLen layout.codeBytesPerRow)
    let (codes, scales) ← .ofExcept ((List.range (values.length / layout.rowWidth)).foldlM
      (encodeRow log2Ceil layout codeBytesPerRow values) (codes, scales))
    pure ⟨layout, codes, scales⟩

/-! ### Reassembly and decoding -/

variable (block : CpuFp4E2M1KvBlockV1)

/-- Decoded scale of one group. -/
def scale (group : ℕ) : Outcome CpuFp4Error F64 :=
  match block.layout.scaleEncoding with
  | .f32 =>
    match block.scales.drop (group * 4) with
    | b₀ :: b₁ :: b₂ :: b₃ :: _ =>
      let scale := F32.ofLeBytes b₀ b₁ b₂ b₃
      if !scale.isFinite || scale.negative then .raise (.invalidScale group)
      else pure (scale.convert binary64)
    | _ => .raise .hostIndexOverflow
  | .e8m0 =>
    match block.scales[group]? with
    | some exponent =>
      if exponent = 255 then .raise (.invalidScale group)
      else pure (pow2 ((exponent.toNat : ℤ) - 127))
    | none => .raise .hostIndexOverflow

/-- Check one stored code. -/
def checkPosition (rowCodes : List UInt8) (row position : ℕ) : Outcome CpuFp4Error PUnit := do
  let code ← nibble rowCodes position
  if block.layout.rowWidth ≤ position then
    .require (code = 0) (.nonZeroPadding row position)
  else
    let groupIndex := row * block.layout.groupsPerRow + position / block.layout.groupSize
    let scale ← block.scale groupIndex
    .require ((decodeCode code scale).isFinite = true) (.decodeOverflow groupIndex)

/-- Reassemble a block from packed codes and raw scale bytes, fail closed. -/
def fromParts (layout : Fp4E2M1KvLayoutV1) (codes scales : List UInt8) :
    Outcome CpuFp4Error CpuFp4E2M1KvBlockV1 := do
  let storage ← .wrap .layout layout.storage
  let expectedCodes ← hostLen storage.codeBytes
  .require (codes.length = expectedCodes) (.codeBytesMismatch expectedCodes codes.length)
  let expectedScales ← hostLen storage.scaleBytes
  .require (scales.length = expectedScales) (.scaleBytesMismatch expectedScales scales.length)
  let block : CpuFp4E2M1KvBlockV1 := ⟨layout, codes, scales⟩
  let padded ← hostLen layout.paddedRowWidth
  let codeBytesPerRow ← hostLen layout.codeBytesPerRow
  let rows ← hostLen layout.rows
  (List.range rows).forM fun row => do
    let rowCodes ← .slice block.codes (row * codeBytesPerRow) ((row + 1) * codeBytesPerRow)
    (List.range padded).forM (block.checkPosition rowCodes row)
  pure block

/-- The values of a row of the block, appended to those of the earlier rows. -/
def decodeRow (codeBytesPerRow : ℕ) (output : List F32) (row : ℕ) :
    Outcome CpuFp4Error (List F32) := do
  let rowCodes ← .slice block.codes (row * codeBytesPerRow) ((row + 1) * codeBytesPerRow)
  (List.range block.layout.rowWidth).foldlM (fun output position => do
    let groupIndex := row * block.layout.groupsPerRow + position / block.layout.groupSize
    let scale ← block.scale groupIndex
    let code ← nibble rowCodes position
    pure (output ++ [decodeCode code scale])) output

/-- Decode the block to dense row-major values, padding excluded. -/
def decode : Fp4M (List F32) := do
  let rowWidth := block.layout.rowWidth
  let rows ← .ofExcept (hostLen block.layout.rows)
  let total ← .ofExcept (Outcome.okOr (checkedMul rows rowWidth) .hostIndexOverflow)
  match ← tryReserveExact total with
  | .error _ => .ofExcept (Outcome.raise .allocationFailed)
  | .ok _ =>
    let codeBytesPerRow ← .ofExcept (hostLen block.layout.codeBytesPerRow)
    .ofExcept ((List.range rows).foldlM (block.decodeRow codeBytesPerRow) [])

end CpuFp4E2M1KvBlockV1

/-- The magnitudes of the codes, in halves. -/
def fp4Halves : List ℕ := [0, 1, 2, 3, 4, 6, 8, 12]

theorem fp4Halves_le (index : Fin 8) : fp4Halves[index.val]! ≤ 12 := by
  revert index
  decide

/-- The magnitudes are positive multiples of one half. -/
theorem units_fp4E2m1Magnitudes (index : Fin 8) :
    (fp4E2m1Magnitudes index).isFinite = true ∧ (fp4E2m1Magnitudes index).negative = false ∧
      (fp4E2m1Magnitudes index).units = fp4Halves[index.val]! * 2 ^ 148 := by
  revert index
  decide +kernel

/-- The index of the magnitude of a code. -/
theorem and_seven_lt (code : UInt8) : (code &&& 0x7).toNat < 8 := by
  rw [UInt8.toNat_and]
  exact Nat.lt_of_le_of_lt Nat.and_le_right (by decide)

private theorem mul_two_pow_mul (m c a b : ℕ) : m * 2 ^ a * (c * 2 ^ b) = m * c * 2 ^ (a + b) := by
  rw [Nat.pow_add, Nat.mul_mul_mul_comm]

/-- Under a scale of at most 24 significant digits a code is decoded by one rounding. -/
theorem decodeCode_eq_rounded (code : UInt8) {scale : F64} {s : ℕ}
    (hfinite : scale.isFinite = true) (hsign : scale.negative = false)
    (hunits : scale.units = s * 2 ^ 925) (hs : F32.Digits s) :
    decodeCode code scale =
      .rounded (decide (code &&& 0x8 ≠ 0)) (fp4Halves[(code &&& 0x7).toNat]! * s) 2 := by
  obtain ⟨c, j, hc, hj, rfl⟩ := hs
  set index : Fin 8 := ⟨(code &&& 0x7).toNat, and_seven_lt code⟩
  set m := fp4Halves[(code &&& 0x7).toNat]! with hm
  have hm12 : m ≤ 12 := fp4Halves_le index
  obtain ⟨hmagFinite, hmagSign, hmagUnits⟩ := units_fp4E2m1Magnitudes index
  have hmag : (fp4E2m1Magnitudes index).units = m * 2 ^ 148 := hmagUnits
  have hmagWide : (fp4E2m1Magnitudes index).units * 2 ^ binary64.point =
      m * 2 ^ 1073 * 2 ^ binary32.point := by
    rw [hmag, point_binary32, point_binary64, mul_two_pow, mul_two_pow]
  obtain ⟨hwide, hwideFinite, hwideSign⟩ := Binary.convert_units hmagFinite hmagWide
    (Nat.lt_of_le_of_lt hm12 (by decide)) (by decide)
  have hproduct : ((fp4E2m1Magnitudes index).convert binary64).units * scale.units =
      m * c * 2 ^ (j + 924) * 2 ^ binary64.point := by
    rw [hwide, hunits, point_binary64, mul_two_pow c, mul_two_pow_mul, mul_two_pow]
    exact congrArg (m * c * 2 ^ ·) (by omega)
  have hdigits : m * c < 2 ^ (binary64.fractionBits + 1) := by
    calc m * c ≤ 12 * 2 ^ 24 := Nat.mul_le_mul hm12 (Nat.le_of_lt hc)
      _ < 2 ^ (binary64.fractionBits + 1) := by decide
  have hrange : j + 924 + 2 < 2 ^ binary64.exponentBits :=
    Nat.lt_of_le_of_lt (by omega : j + 924 + 2 ≤ 1202) (by decide)
  obtain ⟨hunits', hfinite', hsign'⟩ :=
    Binary.mul_units hwideFinite hfinite hproduct hdigits hrange
  have hrounded : (((fp4E2m1Magnitudes index).convert binary64).mul scale).convert binary32 =
      .rounded false (m * (c * 2 ^ j)) 2 := by
    rw [Binary.convert_eq_rounded hfinite', hsign', hwideSign, hmagSign, hsign, hunits']
    have hnumerator : m * c * 2 ^ (j + 924) * 2 ^ binary32.point =
        m * (c * 2 ^ j) * 2 ^ 1073 := by
      rw [point_binary32, mul_two_pow, ← Nat.mul_assoc m, mul_two_pow]
    have hdenominator : ∀ n, n + 1 = binary64.point → 2 ^ binary64.point = 2 * 2 ^ n := by
      rintro n h
      rw [← h, Nat.pow_succ']
    rw [hnumerator, hdenominator 1073 rfl, Binary.rounded_mul_right _ _ _ (Nat.two_pow_pos _)]
    rfl
  have hdecode : decodeCode code scale =
      if code &&& 0x8 ≠ 0 then
        ((((fp4E2m1Magnitudes index).convert binary64).mul scale).convert binary32).neg
      else (((fp4E2m1Magnitudes index).convert binary64).mul scale).convert binary32 := rfl
  rw [hdecode, hrounded]
  by_cases hneg : code &&& 0x8 ≠ 0
  · rw [if_pos hneg, decide_eq_true hneg]
    rfl
  · rw [if_neg hneg, decide_eq_false hneg]

/-- A code under a finite scale in single precision without a sign. -/
theorem decodeCode_convert (code : UInt8) {scale : F32} (hfinite : scale.isFinite = true)
    (hsign : scale.negative = false) :
    decodeCode code (scale.convert binary64) =
      .rounded (decide (code &&& 0x8 ≠ 0)) (fp4Halves[(code &&& 0x7).toNat]! * scale.units) 2 := by
  obtain ⟨hwide, hwideFinite, hwideSign⟩ := F32.convert_binary64 hfinite
  exact decodeCode_eq_rounded code hwideFinite (hwideSign.trans hsign) hwide
    (F32.digits_units hfinite)

/-- A power of two in double precision. -/
theorem units_pow2 {exponent : ℕ} (h : exponent < 255) :
    (pow2 ((exponent : ℤ) - 127)).isFinite = true ∧
      (pow2 ((exponent : ℤ) - 127)).negative = false ∧
      (pow2 ((exponent : ℤ) - 127)).units = 2 ^ (exponent + 22) * 2 ^ 925 := by
  revert exponent
  decide +kernel

/-- A code under a power of two. -/
theorem decodeCode_pow2 (code : UInt8) {exponent : ℕ} (h : exponent < 255) :
    decodeCode code (pow2 ((exponent : ℤ) - 127)) =
      .rounded (decide (code &&& 0x8 ≠ 0))
        (fp4Halves[(code &&& 0x7).toNat]! * 2 ^ (exponent + 22)) 2 := by
  obtain ⟨hfinite, hsign, hunits⟩ := units_pow2 h
  exact decodeCode_eq_rounded code hfinite hsign hunits (F32.digits_two_pow (by omega))

end NNIS
