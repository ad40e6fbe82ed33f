import Mathlib.Logic.Function.Basic
import NNIS.Cpu.Device
import NNIS.Memory.Slice

/-!
# WGPU buffers

Buffers and data movement of `nnis-wgpu/src/memory.rs`. WGPU copies whole multiples of its alignment
at offsets that are multiples of it, so an allocation is padded, a read copies the aligned span
around the range to a staging buffer, and an unaligned write reads the span, replaces the range and
writes the span back. The submissions of a queue run in their order. The device may report an error
of each operation for which the source asks, and the operation then has no effect. Where WGPU would
refuse a copy, and where host arithmetic or indexing leaves its range, the model panics.

## Main definitions

* `WgpuLimits`, `WgpuDevice` — a device and what it was granted.
* `WgpuAnswers`, `WgpuCallM`, `popScopes` — the answers of the allocator and of the device.
* `WgpuBuffer`, `WgpuDevice.createBuffer`, `WgpuDevice.upload`.
* `WgpuState`, `WgpuM` — the buffers of a program beside the answers.
* `WgpuQueue.readRaw`, `WgpuQueue.writeRaw`, `WgpuQueue.copyBuffer`, `WgpuQueue.writeBuffer`,
  `WgpuQueue.readBuffer`.
-/

set_option autoImplicit false

namespace NNIS

/-! ### Alignment -/

/-- WGPU's alignment of copies. -/
abbrev copyBufferAlignment : ℕ := 4

/-- The least multiple of the alignment that is not below a size. -/
def paddedSize (bytes : ℕ) : ℕ :=
  (bytes + (copyBufferAlignment - 1)) / copyBufferAlignment * copyBufferAlignment

theorem paddedSize_eq (bytes : ℕ) : paddedSize bytes = (bytes + 3) / 4 * 4 := rfl

theorem paddedSize_mono {bytes bytes' : ℕ} (h : bytes ≤ bytes') :
    paddedSize bytes ≤ paddedSize bytes' :=
  Nat.mul_le_mul_right _ (Nat.div_le_div_right (Nat.add_le_add_right h _))

section

variable {ε : Type}

/-- A size rounded up to the alignment. -/
def alignUp (bytes : ℕ) : Outcome ε ℕ :=
  if paddedSize bytes < wordLimit then .ok (paddedSize bytes) else .error .panic

/-- The end of a range. -/
def rangeEnd (offsetBytes sizeBytes : ℕ) : Outcome ε ℕ :=
  if offsetBytes + sizeBytes < wordLimit then .ok (offsetBytes + sizeBytes) else .error .panic

end

/-! ### Buffers -/

/-- A validated descriptor whose padded size has 64 bits. -/
structure ValidDesc extends BufferDesc where
  sizeBytes_pos : 0 < sizeBytes
  paddedSize_lt : paddedSize sizeBytes < wordLimit

/-- What a queue checks of a buffer: its descriptor and its device. -/
structure WgpuHeader where
  descriptor : BufferDesc
  deviceToken : ℕ

/-- Logical size in bytes. -/
def WgpuHeader.len (header : WgpuHeader) : ℕ := header.descriptor.sizeBytes

/-- WGPU buffer owned by one device: a padded allocation. -/
structure WgpuBuffer extends WgpuHeader where
  buffer : List UInt8
  sizeBytes_pos : 0 < descriptor.sizeBytes
  length_buffer : buffer.length = paddedSize descriptor.sizeBytes
  length_lt : buffer.length < wordLimit

/-- A new allocation of a device. -/
def WgpuBuffer.zeroed (deviceToken : ℕ) (valid : ValidDesc) : WgpuBuffer where
  descriptor := valid.toBufferDesc
  deviceToken
  buffer := List.replicate (paddedSize valid.sizeBytes) 0
  sizeBytes_pos := valid.sizeBytes_pos
  length_buffer := List.length_replicate
  length_lt := by
    rw [List.length_replicate]
    exact valid.paddedSize_lt

/-- The buffer after its device has overwritten a range of its allocation. -/
def WgpuBuffer.overwrite (self : WgpuBuffer) (offset : ℕ) (bytes : List UInt8) : WgpuBuffer where
  toWgpuHeader := self.toWgpuHeader
  buffer := writeRegion self.buffer offset bytes
  sizeBytes_pos := self.sizeBytes_pos
  length_buffer := by
    rw [length_writeRegion]
    exact self.length_buffer
  length_lt := by
    rw [length_writeRegion]
    exact self.length_lt

/-! ### Answers -/

/-- The answers to the operations still to come: those of the process allocator to reservations, and
the reports of the device, which are the text of an error or nothing. -/
structure WgpuAnswers where
  host : Allocator
  reports : ℕ → Option String

/-- A computation on the answers that may return an error or panic. -/
abbrev WgpuCallM (α : Type) := Fallible WgpuAnswers (Stop PortableError) α

/-- A host that grants all memory and a device that reports no error. -/
def WgpuAnswers.granting : WgpuAnswers where
  host := .granting
  reports _ := none

/-- The error of an operation that failed. -/
def WgpuAnswers.failed (operation error : String) : PortableError :=
  .backend (operation ++ " failed: " ++ error)

/-- Report the errors of a computation as errors of another kind. -/
def WgpuCallM.wrap {ε α : Type} (f : PortableError → ε) (m : WgpuCallM α) :
    Fallible WgpuAnswers (Stop ε) α :=
  m.mapError fun
    | .error e => .error (f e)
    | .panic => .panic

/-- The next report of the device. -/
def nextReport : WgpuCallM (Option String) :=
  ⟨fun answers => (.ok (answers.reports 0),
    { answers with reports := fun k => answers.reports (k + 1) })⟩

/-- Return the error that the device reports of an operation. -/
def popScopes (operation : String) : WgpuCallM PUnit := do
  match ← nextReport with
  | none => pure ⟨⟩
  | some error => .fail (.error (WgpuAnswers.failed operation error))

/-- Reserve host memory for bytes to be read. -/
def WgpuQueue.reserveBytes (size : ℕ) : WgpuCallM PUnit := do
  match ← (tryReserveExact size).zoom WgpuAnswers.host fun host answers =>
    { answers with host } with
  | .ok _ => pure ⟨⟩
  | .error error => .fail (.error (WgpuAnswers.failed "host byte reservation" error))

/-! ### Devices -/

/-- The limits that a device was granted. -/
structure WgpuLimits where
  maxBufferSize : ℕ
  maxStorageBufferBindingSize : ℕ
  maxStorageBuffersPerShaderStage : ℕ
  maxUniformBuffersPerShaderStage : ℕ
  maxBindingsPerBindGroup : ℕ
  maxBindGroups : ℕ
  maxComputeInvocationsPerWorkgroup : ℕ
  maxComputeWorkgroupSize : ℕ × ℕ × ℕ
  maxComputeWorkgroupsPerDimension : ℕ
  maxStorageBufferBindingSize_lt : maxStorageBufferBindingSize < 2 ^ 32

/-- A WGPU device: its limits and the token of its buffers. -/
structure WgpuDevice where
  limits : WgpuLimits
  token : ℕ

namespace WgpuDevice

/-- A device with the largest storage binding that its limits can state. -/
def largest : WgpuDevice where
  limits :=
    { maxBufferSize := 2 ^ 40
      maxStorageBufferBindingSize := 2 ^ 32 - 1
      maxStorageBuffersPerShaderStage := 8
      maxUniformBuffersPerShaderStage := 12
      maxBindingsPerBindGroup := 1000
      maxBindGroups := 4
      maxComputeInvocationsPerWorkgroup := 256
      maxComputeWorkgroupSize := (256, 256, 64)
      maxComputeWorkgroupsPerDimension := 65535
      maxStorageBufferBindingSize_lt := by decide }
  token := 1

variable (device : WgpuDevice)

/-- The capability for one buffer: a kernel binding checked against it may be a storage binding. -/
def maxBufferBytes : ℕ :=
  min device.limits.maxBufferSize device.limits.maxStorageBufferBindingSize

/-- A size below the capability has a padded size of 64 bits. -/
theorem paddedSize_lt {sizeBytes : ℕ} (h : sizeBytes ≤ device.maxBufferBytes) :
    paddedSize sizeBytes < wordLimit := by
  have hbinding := device.limits.maxStorageBufferBindingSize_lt
  have hle := h.trans (Nat.min_le_right _ _)
  rw [paddedSize_eq, wordLimit]
  omega

/-- The checks of an allocation. -/
def admitBuffer (descriptor : BufferDesc) : Outcome PortableError ValidDesc :=
  -- Public descriptors may bypass their constructor or be mutated later.
  match hnew : BufferDesc.new descriptor.sizeBytes descriptor.usages descriptor.memory with
  | .error e => .error e
  | .ok descriptor =>
    if hle : descriptor.sizeBytes ≤ device.maxBufferBytes then
      if descriptor.memory = .host then
        .raise (.unsupported "WGPU backend does not expose Host memory buffers")
      else if device.limits.maxBufferSize < paddedSize descriptor.sizeBytes then
        .raise (.unsupported "padded buffer exceeds WGPU max_buffer_size")
      else .ok ⟨descriptor, BufferDesc.sizeBytes_pos_of_new hnew, device.paddedSize_lt hle⟩
    else .raise (.unsupported "buffer exceeds WGPU backend capability")

end WgpuDevice

/-- Allocate a zero-initialized buffer for an already validated descriptor. -/
def allocate (token : ℕ) (valid : ValidDesc) : WgpuCallM WgpuBuffer := do
  popScopes "WGPU buffer allocation"
  pure (.zeroed token valid)

/-- Allocate a zero-initialized buffer on a device. -/
def WgpuDevice.createBuffer (device : WgpuDevice) (descriptor : BufferDesc) :
    WgpuCallM WgpuBuffer := do
  let valid ← .ofExcept (device.admitBuffer descriptor)
  allocate device.token valid

/-! ### Queues -/

/-- The answers still to come and the buffers of a program. -/
structure WgpuState (ι : Type) extends WgpuAnswers where
  buffers : ι → WgpuBuffer

/-- A computation on buffers that may return an error or panic. -/
abbrev WgpuM (ι α : Type) := Fallible (WgpuState ι) (Stop PortableError) α

/-- Run a computation that touches no buffer. -/
def WgpuCallM.beside {ι α : Type} (m : WgpuCallM α) : WgpuM ι α :=
  m.zoom WgpuState.toWgpuAnswers fun answers state => { state with toWgpuAnswers := answers }

/-- Run a program on buffers that its caller owns. -/
def WgpuM.onBuffers {ι : Type} (buffers : ι → WgpuBuffer) (m : WgpuM ι PUnit) :
    WgpuCallM (ι → WgpuBuffer) :=
  ⟨fun answers =>
    match m.run ⟨answers, buffers⟩ with
    | (.ok _, state) => (.ok state.buffers, state.toWgpuAnswers)
    | (.error e, state) => (.error e, state.toWgpuAnswers)⟩

/-- Submission queue of one device. -/
structure WgpuQueue where
  deviceToken : ℕ

/-- Refuse a buffer that lacks a usage. -/
def WgpuHeader.requireUsage (header : WgpuHeader) (required : BufferUsages) (operation : String) :
    Outcome PortableError PUnit :=
  .require (header.descriptor.usages.contains required = true)
    (.unsupported s!"{operation} requires buffer usage bits {required.bits}")

/-- Refuse a range that leaves a buffer. -/
def checkedRange (total offsetBytes sizeBytes : ℕ) : Outcome PortableError PUnit :=
  match checkedAdd offsetBytes sizeBytes with
  | some stop => .require (stop ≤ total) (.outOfBounds offsetBytes sizeBytes total)
  | none => .raise (.outOfBounds offsetBytes sizeBytes total)

namespace WgpuQueue

variable (queue : WgpuQueue)

/-- Refuse a buffer of another device. -/
def checkOwner (header : WgpuHeader) : Outcome PortableError PUnit :=
  .require (header.deviceToken = queue.deviceToken)
    (.unsupported "WGPU buffer belongs to a different device")

/-- WGPU copies a range only if it is aligned and inside both allocations. -/
def CopyFits (sourceBytes sourceOffset destinationBytes destinationOffset size : ℕ) : Prop :=
  sourceOffset % copyBufferAlignment = 0 ∧ destinationOffset % copyBufferAlignment = 0 ∧
    size % copyBufferAlignment = 0 ∧ sourceOffset + size ≤ sourceBytes ∧
    destinationOffset + size ≤ destinationBytes

instance (sourceBytes sourceOffset destinationBytes destinationOffset size : ℕ) :
    Decidable (CopyFits sourceBytes sourceOffset destinationBytes destinationOffset size) :=
  inferInstanceAs (Decidable (_ ∧ _ ∧ _ ∧ _ ∧ _))

/-- What WGPU refuses is a panic. -/
def admitCopy (sourceBytes sourceOffset destinationBytes destinationOffset size : ℕ) :
    Outcome PortableError PUnit :=
  if CopyFits sourceBytes sourceOffset destinationBytes destinationOffset size then .ok ⟨⟩
  else .error .panic

/-- Read a range of an allocation after all prior submissions. -/
def readWgpu (allocation : List UInt8) (offsetBytes sizeBytes : ℕ) : WgpuCallM (List UInt8) := do
  reserveBytes sizeBytes
  if sizeBytes = 0 then pure [] else do
    let start := offsetBytes - offsetBytes % copyBufferAlignment
    let stop ← .ofExcept (rangeEnd offsetBytes sizeBytes >>= alignUp)
    let span := stop - start
    .ofExcept (admitCopy allocation.length start span 0 span)
    popScopes "WGPU readback"
    -- The device reports a callback that it dropped, then the outcome of the mapping.
    let dropped ← nextReport
    .ofExcept (Outcome.require (dropped = none) (.backend "WGPU readback callback dropped"))
    popScopes "WGPU readback"
    let mapped := writeRegion (List.replicate span 0) 0 (region allocation start span)
    let first := offsetBytes - start
    .ofExcept (Outcome.slice mapped first (first + sizeBytes))

variable {ι : Type} [DecidableEq ι]

/-- Copy a range of one allocation to another on the device. -/
def copyBufferToBuffer (source : ι) (sourceOffset : ℕ) (destination : ι)
    (destinationOffset size : ℕ) : WgpuM ι PUnit := do
  let state ← .get
  let bytes := region (state.buffers source).buffer sourceOffset size
  .ofExcept (admitCopy (state.buffers source).buffer.length sourceOffset
    (state.buffers destination).buffer.length destinationOffset size)
  (popScopes "WGPU submission").beside
  .modify fun state => { state with
    buffers := Function.update state.buffers destination
      ((state.buffers destination).overwrite destinationOffset bytes) }

/-- Write bytes to an allocation. -/
def writeAllocation (buffer : ι) (offset : ℕ) (bytes : List UInt8) : WgpuM ι PUnit := do
  let state ← .get
  .ofExcept (admitCopy bytes.length 0 (state.buffers buffer).buffer.length offset bytes.length)
  (popScopes "WGPU write").beside
  .modify fun state => { state with
    buffers := Function.update state.buffers buffer
      ((state.buffers buffer).overwrite offset bytes) }

/-- Read a range of a buffer without the usage check. -/
def readRaw (buffer : ι) (offsetBytes sizeBytes : ℕ) : WgpuM ι (List UInt8) := do
  let state ← .get
  (readWgpu (state.buffers buffer).buffer offsetBytes sizeBytes).beside

/-- Write without the usage check. -/
def writeRaw (buffer : ι) (offsetBytes : ℕ) (bytes : List UInt8) : WgpuM ι PUnit := do
  let sizeBytes := bytes.length
  if sizeBytes = 0 then pure ⟨⟩ else do
    let start := offsetBytes - offsetBytes % copyBufferAlignment
    let stop ← .ofExcept (rangeEnd offsetBytes sizeBytes >>= alignUp)
    if start = offsetBytes ∧ stop = offsetBytes + sizeBytes then
      writeAllocation buffer offsetBytes bytes
    else do
      -- Bytes outside the requested range are written back unchanged.
      let span ← readRaw buffer start (stop - start)
      let first := offsetBytes - start
      let span ← .ofExcept (Outcome.copyAt span first bytes)
      writeAllocation buffer start span

/-- A copy that is staged through the host. -/
def copyThroughHost (source : ι) (sourceOffsetBytes : ℕ) (destination : ι)
    (destinationOffsetBytes sizeBytes : ℕ) : WgpuM ι PUnit := do
  let bytes ← readRaw source sourceOffsetBytes sizeBytes
  writeRaw destination destinationOffsetBytes bytes

/-- Copy between distinct buffers of this device. -/
def copyBuffer (source : ι) (sourceOffsetBytes : ℕ) (destination : ι)
    (destinationOffsetBytes sizeBytes : ℕ) : WgpuM ι PUnit := do
  let state ← .get
  .ofExcept (queue.checkOwner (state.buffers source).toWgpuHeader)
  .ofExcept (queue.checkOwner (state.buffers destination).toWgpuHeader)
  .ofExcept ((state.buffers source).requireUsage .copySrc "WGPU copy source")
  .ofExcept ((state.buffers destination).requireUsage .copyDst "WGPU copy destination")
  .ofExcept (checkedRange (state.buffers source).len sourceOffsetBytes sizeBytes)
  .ofExcept (checkedRange (state.buffers destination).len destinationOffsetBytes sizeBytes)
  if sizeBytes = 0 then pure ⟨⟩
  else if sourceOffsetBytes % copyBufferAlignment = 0 ∧
      destinationOffsetBytes % copyBufferAlignment = 0 ∧
      sizeBytes % copyBufferAlignment = 0 then
    copyBufferToBuffer source sourceOffsetBytes destination destinationOffsetBytes sizeBytes
  else copyThroughHost source sourceOffsetBytes destination destinationOffsetBytes sizeBytes

/-- Stage bytes, then submit the write. -/
def writeBuffer (buffer : ι) (offsetBytes : ℕ) (bytes : List UInt8) : WgpuM ι PUnit := do
  let state ← .get
  .ofExcept (queue.checkOwner (state.buffers buffer).toWgpuHeader)
  .ofExcept ((state.buffers buffer).requireUsage .copyDst "WGPU buffer write")
  .ofExcept (checkedRange (state.buffers buffer).len offsetBytes bytes.length)
  writeRaw buffer offsetBytes bytes

/-- Read after all previously submitted work on this queue completes. -/
def readBuffer (buffer : ι) (offsetBytes sizeBytes : ℕ) : WgpuM ι (List UInt8) := do
  let state ← .get
  .ofExcept (queue.checkOwner (state.buffers buffer).toWgpuHeader)
  .ofExcept ((state.buffers buffer).requireUsage .copySrc "WGPU buffer read")
  .ofExcept (checkedRange (state.buffers buffer).len offsetBytes sizeBytes)
  readRaw buffer offsetBytes sizeBytes

end WgpuQueue

/-- Write bytes to a new buffer, which the caller owns. -/
def WgpuDevice.upload (device : WgpuDevice) (descriptor : BufferDesc) (bytes : List UInt8) :
    WgpuCallM WgpuBuffer := do
  let queue : WgpuQueue := ⟨device.token⟩
  let buffer ← device.createBuffer descriptor
  let buffers ← (queue.writeBuffer () 0 bytes).onBuffers fun _ => buffer
  pure (buffers ())

end NNIS
