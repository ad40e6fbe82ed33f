import NNIS.Cpu.Replay
import NNIS.Wgpu.MemoryRefinement

/-!
# WGPU replay sources

The device-resident sources of `nnis-wgpu/src/replay.rs` that are uploaded from the host. Rows are
whole words, so every copy is aligned and runs on the device.

## Main definitions

* `WgpuReplayError`, `WgpuReplaySourceV1`.
* `WgpuQueue.createBoundedBuffer` — an allocation bounded by a buffer of the device.
* `WgpuReplaySourceV1.fromHost`, `WgpuReplaySourceV1.replayWindow`,
  `WgpuReplaySourceV1.replayRecentWindow`.
-/

set_option autoImplicit false

namespace NNIS

/-- Fail-closed WGPU replay errors. -/
inductive WgpuReplayError
  | identity (error : ReplayIdentityError)
  | zeroRowWidth
  | payloadLengthMismatch (expected actual : ℕ)
  | payloadByteLengthMismatch (expectedBytes actualBytes : ℕ)
  | nonFiniteValue (index : ℕ)
  | nonFiniteDeviceValue
  | hostIndexOverflow
  | portable (error : PortableError)
  deriving DecidableEq

/-- The text of an error. -/
def WgpuReplayError.text : WgpuReplayError → String
  | identity error => s!"replay identity: {error.text}"
  | zeroRowWidth => "WGPU replay row width must be non-zero"
  | payloadLengthMismatch expected actual =>
    s!"WGPU replay payload has {actual} values, expected {expected}"
  | payloadByteLengthMismatch expectedBytes actualBytes =>
    s!"WGPU replay buffer has {actualBytes} bytes, expected {expectedBytes}"
  | nonFiniteValue index => s!"WGPU replay payload value {index} is not finite"
  | nonFiniteDeviceValue => "WGPU replay device payload contains a non-finite value"
  | hostIndexOverflow => "WGPU replay logical range does not fit host indexing"
  | portable error => s!"WGPU replay: {error.text}"

/-- A computation of a replay source. -/
abbrev WgpuReplayM (α : Type) := Fallible WgpuAnswers (Stop WgpuReplayError) α

/-- Buffer usages of replay payloads and replayed windows. -/
def replayUsages : BufferUsages := .storage ||| .copySrc ||| .copyDst

namespace WgpuReplay

def hostIndex (value : ℕ) : Outcome WgpuReplayError ℕ :=
  .okOr (if value < wordLimit then some value else none) .hostIndexOverflow

def expectedValues (identity : ReplaySourceIdentityV1) (rowWidth : ℕ) :
    Outcome WgpuReplayError ℕ := do
  .require (rowWidth ≠ 0) .zeroRowWidth
  let items ← .wrap .identity identity.logicalItems
  let items ← hostIndex items
  .okOr (checkedMul items rowWidth) .hostIndexOverflow

/-- The number of values of a payload whose length is right and whose values are finite. -/
def checkHostPayload (identity : ReplaySourceIdentityV1) (rowWidth : ℕ) (rows : List F32) :
    Outcome WgpuReplayError ℕ := do
  let expected ← expectedValues identity rowWidth
  .require (rows.length = expected) (.payloadLengthMismatch expected rows.length)
  match rows.findIdx? fun value => !value.isFinite with
  | some index => .raise (.nonFiniteValue index)
  | none => pure expected

def byteLen (values : ℕ) : Outcome WgpuReplayError ℕ :=
  .okOr (checkedMul values 4) .hostIndexOverflow

def replayDesc (values : ℕ) : Outcome WgpuReplayError BufferDesc := do
  let bytes ← byteLen values
  .wrap .portable (BufferDesc.new bytes replayUsages .deviceLocal)

end WgpuReplay

/-- A buffer bounds the padded size of what it bounds. -/
theorem WgpuBuffer.paddedSize_lt (self : WgpuBuffer) {sizeBytes : ℕ} (h : sizeBytes ≤ self.len) :
    paddedSize sizeBytes < wordLimit :=
  (paddedSize_mono h).trans_lt (self.length_buffer ▸ self.length_lt)

namespace WgpuQueue

variable (queue : WgpuQueue)

/-- The checks of an allocation whose size does not exceed an existing buffer of this device. -/
def admitBounded (descriptor : BufferDesc) (bound : WgpuBuffer) :
    Outcome PortableError ValidDesc :=
  match queue.checkOwner bound.toWgpuHeader with
  | .error e => .error e
  | .ok _ =>
    match hnew : BufferDesc.new descriptor.sizeBytes descriptor.usages descriptor.memory with
    | .error e => .error e
    | .ok descriptor =>
      if h : descriptor.memory = .host ∨ bound.len < descriptor.sizeBytes then
        .raise (.unsupported "bounded WGPU allocation exceeds its bound or requests Host memory")
      else
        .ok ⟨descriptor, BufferDesc.sizeBytes_pos_of_new hnew,
          bound.paddedSize_lt (Nat.le_of_not_lt (not_or.1 h).2)⟩

/-- Allocate a non-Host buffer on this queue's device whose size does not exceed an existing buffer
of this device. -/
def createBoundedBuffer (descriptor : BufferDesc) (bound : WgpuBuffer) : WgpuCallM WgpuBuffer := do
  let valid ← .ofExcept (queue.admitBounded descriptor bound)
  allocate queue.deviceToken valid

end WgpuQueue

open Outcome WgpuReplay

/-- Immutable device-resident replay source bound to one exact source identity. -/
structure WgpuReplaySourceV1 where
  identity : ReplaySourceIdentityV1
  rowWidth : ℕ
  rows : WgpuBuffer
  queue : WgpuQueue

namespace WgpuReplaySourceV1

/-- Upload a dense finite row-major host payload bound to an identity. -/
def fromHost (device : WgpuDevice) (identity : ReplaySourceIdentityV1) (rowWidth : ℕ)
    (rows : List F32) : WgpuReplayM WgpuReplaySourceV1 := do
  let expected ← .ofExcept (checkHostPayload identity rowWidth rows)
  let descriptor ← .ofExcept (replayDesc expected)
  let buffer ← (device.upload descriptor (F32.bytes rows)).wrap .portable
  pure ⟨identity, rowWidth, buffer, ⟨device.token⟩⟩

/-- The buffers of a replay: the payload and the window. -/
inductive Slot
  | rows
  | window
  deriving DecidableEq

/-- A payload and a window. -/
def slots (rows window : WgpuBuffer) : Slot → WgpuBuffer
  | .rows => rows
  | .window => window

variable (source : WgpuReplaySourceV1)

/-- The first value and the number of values of a window, inside the payload. -/
def windowRange (request : ReplayWindowRequestV1) : Outcome WgpuReplayError (ℕ × ℕ) := do
  require (source.identity = request.source) (.identity .sourceIdentityMismatch)
  let firstRow ← okOr
    (checkedSub request.logicalStartPosition source.identity.logicalStartPosition)
    (.identity .positionOverflow)
  let firstRow ← WgpuReplay.hostIndex firstRow
  let rowCount ← wrap .identity request.logicalItems
  let rowCount ← WgpuReplay.hostIndex rowCount
  let start ← okOr (checkedMul firstRow source.rowWidth) .hostIndexOverflow
  let len ← okOr (checkedMul rowCount source.rowWidth) .hostIndexOverflow
  let stop ← okOr (checkedAdd start len) .hostIndexOverflow
  require ((← byteLen stop) ≤ source.rows.len) .hostIndexOverflow
  pure (start, len)

/-- Copy the rows of a replay window into a new device buffer. -/
def replayWindow (request : ReplayWindowRequestV1) : WgpuReplayM WgpuBuffer := do
  let (start, len) ← .ofExcept (source.windowRange request)
  let descriptor ← .ofExcept (replayDesc len)
  let window ← (source.queue.createBoundedBuffer descriptor source.rows).wrap .portable
  let startBytes ← .ofExcept (byteLen start)
  let lenBytes ← .ofExcept (byteLen len)
  let copy := source.queue.copyBuffer .rows startBytes .window 0 lenBytes
  let buffers ← (copy.onBuffers (slots source.rows window)).wrap .portable
  pure (buffers .window)

/-- Resolve and copy the most recent positions. -/
def replayRecentWindow (windowItems : ℕ) :
    WgpuReplayM (ReplayWindowRequestV1 × WgpuBuffer) := do
  let request ← .ofExcept
    (wrap .identity (ReplayWindowRequestV1.recent source.identity windowItems))
  let rows ← source.replayWindow request
  pure (request, rows)

end WgpuReplaySourceV1

end NNIS
