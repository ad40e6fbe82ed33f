import NNIS.Cpu.Fp4Kv
import NNIS.Wgpu.Numerical

/-!
# WGPU decode of FP4 blocks

The decode of `nnis-wgpu/src/fp4.rs`: a block is validated on the host, its bytes are padded to
whole words and uploaded, and one kernel decodes each logical value by integer arithmetic. Words of
the device are numbers of 32 bits; exponents are integers. The host and the device may refuse the
memory and the buffers of an upload, and the output and the dispatch of a decode. The report of a
decode is left out.

## Main definitions

* `WgpuFp4Error`, `hostScale`, `validateParts`, `WgpuFp4E2M1KvBlockV1`,
  `WgpuFp4E2M1KvBlockV1.fromParts`.
* `roundBits`, `fp4DecodeWord`, `fp4DecodeMain` — the kernel.
* `WgpuFp4E2M1KvBlockV1.decode`.
-/

set_option autoImplicit false

namespace NNIS

/-- Fail-closed WGPU FP4 errors. -/
inductive WgpuFp4Error
  | layout (error : Fp4LayoutError)
  | codeBytesMismatch (expected actual : ℕ)
  | scaleBytesMismatch (expected actual : ℕ)
  | invalidScale (group : ℕ)
  | nonZeroPadding (row position : ℕ)
  | decodeOverflow (group : ℕ)
  | hostIndexOverflow
  | allocationFailed
  | exceedsDeviceIndexing
  | portable (error : PortableError)
  deriving DecidableEq

/-- A computation of a block. -/
abbrev WgpuFp4M (α : Type) := Fallible WgpuAnswers (Stop WgpuFp4Error) α

/-- The text of an error. -/
def WgpuFp4Error.text : WgpuFp4Error → String
  | layout error => s!"FP4 layout: {error.text}"
  | codeBytesMismatch expected actual => s!"FP4 code bytes {actual} do not match {expected}"
  | scaleBytesMismatch expected actual => s!"FP4 scale bytes {actual} do not match {expected}"
  | invalidScale group => s!"FP4 group {group} scale is invalid"
  | nonZeroPadding row position =>
    s!"FP4 padding code at row {row} position {position} is non-zero"
  | decodeOverflow group => s!"FP4 group {group} would decode to a non-finite value"
  | hostIndexOverflow => "FP4 size does not fit host indexing"
  | allocationFailed => "FP4 host allocation failed"
  | exceedsDeviceIndexing => "FP4 block exceeds u32 WGPU device indexing"
  | portable error => s!"WGPU FP4: {error.text}"

/-! ### The kernel -/

/-- The number of leading zeros of a word. -/
def countLeadingZeros (p : ℕ) : ℕ := if p = 0 then 32 else 31 - p.log2

/-- Shift right by at least one, to nearest even. -/
def shiftNearestEven (p s : ℕ) : ℕ :=
  let q := p >>> s
  let rem := p &&& (1 <<< s - 1)
  let half := 1 <<< (s - 1)
  if half < rem ∨ rem = half ∧ q &&& 1 = 1 then q + 1 else q

/-- Round `p * 2 ^ e` once to the bits of a single-precision word, nearest even. -/
def roundBits (p : ℕ) (e : ℤ) : ℕ :=
  if p = 0 then 0
  else
    let msb : ℤ := (31 - countLeadingZeros p : ℕ)
    let x := msb + e
    if -126 ≤ x then
      let shift := msb - 23
      let rounded : ℕ × ℤ :=
        if shift ≤ 0 then (p <<< (-shift).toNat % wordLimit32, x)
        else
          let sig := shiftNearestEven p shift.toNat
          if sig = 0x1000000 then (sig >>> 1, x + 1) else (sig, x)
      if 127 < rounded.2 then 0x7F800000
      else (rounded.2 + 127).toNat <<< 23 % wordLimit32 ||| (rounded.1 &&& 0x7FFFFF)
    else
      let shift := -(e + 149)
      if shift ≤ 0 then p <<< (-shift).toNat % wordLimit32
      else if 29 ≤ shift then 0
      else shiftNearestEven p shift.toNat

section

variable {ε : Type}

/-- A byte of a list of words. -/
def kernelByte (words : List ℕ) (index : ℕ) : Outcome ε ℕ := do
  let word ← .index words (index >>> 2)
  pure (word >>> ((index &&& 3) * 8) &&& 0xFF)

/-- The significand and the exponent of the product of a magnitude and a scale. -/
def fp4Product (scales : List ℕ) (encoding m group : ℕ) : Outcome ε (ℕ × ℤ) :=
  if encoding = 0 then do
    let bits ← .index scales group
    let biased := bits >>> 23 &&& 0xFF
    let mantissa := bits &&& 0x7FFFFF
    if biased = 0 then do
      let p ← kernelU32 (m * mantissa)
      pure (p, -150)
    else do
      let p ← kernelU32 (m * (mantissa ||| 0x800000))
      pure (p, (biased : ℤ) - 151)
  else do
    let exponent ← kernelByte scales group
    pure (m, (exponent : ℤ) - 128)

/-- The word that an invocation writes, if it does not return before. -/
def fp4DecodeWord (params codes scales : List ℕ) (i : ℕ) : Outcome ε (Option ℕ) := do
  let rowWidth ← .index params 0
  let codeBytesPerRow ← .index params 1
  let groupsPerRow ← .index params 2
  let groupSize ← .index params 3
  let total ← .index params 4
  let encoding ← .index params 5
  if i ≥ total then pure none else do
    let row := i / rowWidth
    let position := i % rowWidth
    let rowStart ← kernelU32 (row * codeBytesPerRow)
    let codeIndex ← kernelU32 (rowStart + position / 2)
    let packed ← kernelByte codes codeIndex
    let code := if position &&& 1 = 1 then packed >>> 4 else packed &&& 0xF
    let groupStart ← kernelU32 (row * groupsPerRow)
    let group ← kernelU32 (groupStart + position / groupSize)
    let m ← .index fp4Halves (code &&& 7)
    let product ← fp4Product scales encoding m group
    let result := roundBits product.1 product.2
    pure (some (if code &&& 8 ≠ 0 then result ||| 0x80000000 else result))

/-- An invocation of the kernel. -/
def fp4DecodeMain (params codes scales output : List ℕ) (i : ℕ) : Outcome ε (List ℕ) := do
  match ← fp4DecodeWord params codes scales i with
  | none => pure output
  | some word => .modifyAt output i fun _ => word

end

/-! ### Blocks -/

/-- Bytes padded with zeros to a positive number of whole words. -/
def padToWords (bytes : List UInt8) : List UInt8 :=
  bytes ++ List.replicate (max ((bytes.length + 3) / 4) 1 * 4 - bytes.length) 0

/-- The words of padded bytes. -/
def paddedWords (bytes : List UInt8) : List ℕ := wordsOfLeBytes (padToWords bytes)

/-- A size as a host index. -/
def wgpuHostLen (value : ℕ) : Outcome WgpuFp4Error ℕ :=
  .okOr (if value < wordLimit then some value else none) .hostIndexOverflow

/-- The scale of a group. -/
def hostScale (encoding : Fp4ScaleEncodingV1) (scales : List UInt8) (group : ℕ) :
    Outcome WgpuFp4Error F64 :=
  match encoding with
  | .f32 =>
    match scales.drop (group * 4) with
    | b₀ :: b₁ :: b₂ :: b₃ :: _ =>
      let scale := F32.ofLeBytes b₀ b₁ b₂ b₃
      if !scale.isFinite || scale.negative then .raise (.invalidScale group)
      else pure (scale.convert binary64)
    | _ => .raise .hostIndexOverflow
  | .e8m0 =>
    match scales[group]? with
    | some exponent =>
      if exponent = 255 then .raise (.invalidScale group)
      else pure (pow2 ((exponent.toNat : ℤ) - 127))
    | none => .raise .hostIndexOverflow

/-- Check one stored code. -/
def validatePosition (layout : Fp4E2M1KvLayoutV1) (scales rowCodes : List UInt8)
    (row position : ℕ) : Outcome WgpuFp4Error PUnit := do
  let byte ← .index rowCodes (position / 2)
  let code := if position % 2 = 0 then byte &&& 0x0F else byte >>> 4
  if layout.rowWidth ≤ position then
    .require (code = 0) (.nonZeroPadding row position)
  else
    let group := row * layout.groupsPerRow + position / layout.groupSize
    let scale ← hostScale layout.scaleEncoding scales group
    let magnitude :=
      ((fp4E2m1Magnitudes ⟨(code &&& 0x7).toNat, and_seven_lt code⟩).convert binary64).mul scale
    .require ((magnitude.convert binary32).isFinite = true) (.decodeOverflow group)

/-- Validate parts on the host. -/
def validateParts (layout : Fp4E2M1KvLayoutV1) (codes scales : List UInt8) :
    Outcome WgpuFp4Error Fp4KvStorageV1 := do
  let storage ← .wrap .layout layout.storage
  let expectedCodes ← wgpuHostLen storage.codeBytes
  .require (codes.length = expectedCodes) (.codeBytesMismatch expectedCodes codes.length)
  let expectedScales ← wgpuHostLen storage.scaleBytes
  .require (scales.length = expectedScales) (.scaleBytesMismatch expectedScales scales.length)
  let padded ← wgpuHostLen layout.paddedRowWidth
  let codeBytesPerRow ← wgpuHostLen layout.codeBytesPerRow
  let rows ← wgpuHostLen layout.rows
  (List.range rows).forM fun row => do
    let rowCodes ← .slice codes (row * codeBytesPerRow) ((row + 1) * codeBytesPerRow)
    (List.range padded).forM (validatePosition layout scales rowCodes row)
  pure storage

/-- The word by which the kernel distinguishes the encodings. -/
def Fp4ScaleEncodingV1.deviceWord : Fp4ScaleEncodingV1 → ℕ
  | f32 => 0
  | e8m0 => 1

/-- The parameters of the kernel for a layout. -/
def Fp4E2M1KvLayoutV1.kernelParams (layout : Fp4E2M1KvLayoutV1) (values : ℕ) : List ℕ :=
  [layout.rowWidth, layout.codeBytesPerRow % wordLimit32, layout.groupsPerRow, layout.groupSize,
    values % wordLimit32, layout.scaleEncoding.deviceWord]

/-- FP4 E2M1 group-scaled KV block in buffers of the device. -/
structure WgpuFp4E2M1KvBlockV1 where
  layout : Fp4E2M1KvLayoutV1
  storage : Fp4KvStorageV1
  codes : WgpuBuffer
  scales : WgpuBuffer
  params : WgpuBuffer
  values : ℕ

namespace WgpuFp4E2M1KvBlockV1

/-- The usages of the buffers of a block and of its output. -/
def blockUsages : BufferUsages := .storage ||| .copySrc ||| .copyDst

/-- Upload bytes padded with zeros to whole words. -/
def uploadWords (device : WgpuDevice) (bytes : List UInt8) : WgpuFp4M WgpuBuffer := do
  match ← (tryReserveExact (bytes.length + 4)).zoom WgpuAnswers.host
      fun host answers => { answers with host } with
  | .error _ => .fail (.error .allocationFailed)
  | .ok _ =>
    let padded := padToWords bytes
    let descriptor ← .ofExcept
      (Outcome.wrap .portable (BufferDesc.new padded.length blockUsages .deviceLocal))
    (device.upload descriptor padded).wrap .portable

/-- Validate packed codes and raw scale bytes on the host, then upload them. -/
def fromParts (device : WgpuDevice) (layout : Fp4E2M1KvLayoutV1) (codes scales : List UInt8) :
    WgpuFp4M WgpuFp4E2M1KvBlockV1 := do
  let storage ← .ofExcept (validateParts layout codes scales)
  let values ← .ofExcept (wgpuHostLen storage.logicalValues)
  .ofExcept (Outcome.require (storage.logicalValues < wordLimit32 ∧
    storage.codeBytes < wordLimit32 ∧ storage.scaleBytes < wordLimit32) .exceedsDeviceIndexing)
  let codes ← uploadWords device codes
  let scales ← uploadWords device scales
  let params ← uploadWords device ((layout.kernelParams values).flatMap (leBytes 4))
  pure { layout, storage, codes, scales, params, values }

/-- Decode the block on a device into the words of a fresh buffer. -/
def decode (scheduler : Scheduler) (device : WgpuDevice) (block : WgpuFp4E2M1KvBlockV1) :
    WgpuFp4M (List ℕ) := do
  .ofExcept (Outcome.wrap .portable
    (WgpuQueue.checkOwner ⟨device.token⟩ block.codes.toWgpuHeader))
  let outputBytes ← .ofExcept (Outcome.okOr (checkedMul block.values 4) .hostIndexOverflow)
  let descriptor ← .ofExcept
    (Outcome.wrap .portable (BufferDesc.new outputBytes blockUsages .deviceLocal))
  let _output ← (device.createBuffer descriptor).wrap .portable
  .ofExcept (Outcome.wrap .portable
    (device.artifact 64 [block.params.len, block.codes.len, block.scales.len, outputBytes]))
  let groups ← .ofExcept (Outcome.wrap .portable (device.groups block.values 64))
  let words ← .ofExcept (dispatch
    (fp4DecodeMain (wordsOfLeBytes block.params.buffer) (wordsOfLeBytes block.codes.buffer)
      (wordsOfLeBytes block.scales.buffer))
    (scheduler.order 0 (groups * 64)) (List.replicate block.values 0))
  (popScopes "WGPU FP4 decode").wrap .portable
  pure words

end WgpuFp4E2M1KvBlockV1

end NNIS
