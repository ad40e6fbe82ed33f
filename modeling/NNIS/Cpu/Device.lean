import NNIS.Core.Portable
import NNIS.Numeric.Bytes
import NNIS.Semantics.Allocator

/-!
# The CPU reference device

Buffers and allocation of `nnis-cpu/src/lib.rs`. The process allocator is part of the state: each
reservation consumes its next answer, which is a capacity or the text of a refusal. The identity
of the backend and the capabilities that nothing reads are left out of the device.

## Main definitions

* `reserveBytes`.
* `CpuDevice`, `CpuBuffer`, `CpuDevice.createBuffer`, `requireUsage`.
* `CpuQueue.writeBuffer`, `CpuQueue.readBuffer` — copies between a buffer and bytes of the host.

## Main results

* `reserveBytes_spec`, `CpuDevice.createBuffer_spec`.
-/

set_option autoImplicit false

namespace NNIS

/-- A computation of the device on the host that may return an error or panic. -/
abbrev HostM (α : Type) := Fallible Allocator (Stop PortableError) α

/-- The capacity of a fresh byte vector with room for `size` bytes. -/
def reserveBytes (size : ℕ) : HostM ℕ := do
  match ← tryReserveExact size with
  | .ok capacity => pure capacity
  | .error error =>
    .ofExcept (Outcome.raise (.backend ("CPU byte reservation failed: " ++ error)))

/-- Portable CPU reference device. -/
structure CpuDevice where
  maxBufferBytes : ℕ
  maxBufferBytes_pos : 0 < maxBufferBytes
  maxBufferBytes_le : maxBufferBytes ≤ isizeMax

/-- Owned CPU byte buffer. -/
structure CpuBuffer where
  descriptor : BufferDesc
  bytes : List UInt8
  capacityBytes : ℕ
  deriving DecidableEq

namespace CpuBuffer

/-- The initialized payload length. -/
def len (buffer : CpuBuffer) : ℕ := buffer.bytes.length

/-- The owned byte storage is empty. -/
def isEmpty (buffer : CpuBuffer) : Bool := buffer.bytes.isEmpty

/-- The words of a buffer. -/
def values (buffer : CpuBuffer) : List F32 := F32.words buffer.bytes

theorem length_values (buffer : CpuBuffer) : buffer.values.length = buffer.len / 4 :=
  F32.length_words buffer.bytes

end CpuBuffer

/-- Refuse a buffer that lacks a usage. -/
def requireUsage (buffer : CpuBuffer) (required : BufferUsages) (operation : String) :
    Outcome PortableError PUnit :=
  Outcome.require (buffer.descriptor.usages.contains required = true)
    (.unsupported s!"{operation} requires buffer usage bits {required.bits}")

namespace CpuDevice

/-- A device with a positive limit for one buffer that the host can allocate. -/
def withMaxBufferBytes (maxBufferBytes : ℕ) : Outcome PortableError CpuDevice :=
  if h : maxBufferBytes = 0 ∨ isizeMax < maxBufferBytes then
    Outcome.raise (.invalidDescriptor "CPU buffer limit must be positive and fit isize::MAX bytes")
  else .ok ⟨maxBufferBytes, by omega, by omega⟩

def createBuffer (device : CpuDevice) (descriptor : BufferDesc) : HostM CpuBuffer := do
  -- Public descriptors may bypass their constructor or be mutated later.
  let descriptor ←
    .ofExcept (BufferDesc.new descriptor.sizeBytes descriptor.usages descriptor.memory)
  .ofExcept (Outcome.require (descriptor.sizeBytes ≤ device.maxBufferBytes)
    (.unsupported "buffer exceeds CPU backend capability"))
  .ofExcept (Outcome.require (descriptor.memory ≠ .deviceLocal)
    (.unsupported "CPU reference backend does not expose DeviceLocal memory"))
  let size := descriptor.sizeBytes
  let capacity ← reserveBytes size
  pure ⟨descriptor, List.replicate size 0, capacity⟩

end CpuDevice

namespace CpuQueue

/-- The check of a byte range of a buffer. -/
def checkedRange (total offsetBytes sizeBytes : ℕ) : Outcome PortableError PUnit := do
  let stop ← .okOr (checkedAdd offsetBytes sizeBytes) (.outOfBounds offsetBytes sizeBytes total)
  .require (stop ≤ total) (.outOfBounds offsetBytes sizeBytes total)

def writeBuffer (buffer : CpuBuffer) (offsetBytes : ℕ) (bytes : List UInt8) :
    Outcome PortableError CpuBuffer := do
  requireUsage buffer .copyDst "CPU buffer write"
  checkedRange buffer.len offsetBytes bytes.length
  pure { buffer with bytes := writeRegion buffer.bytes offsetBytes bytes }

def readBuffer (buffer : CpuBuffer) (offsetBytes sizeBytes : ℕ) : HostM (List UInt8) := do
  .ofExcept (requireUsage buffer .copySrc "CPU buffer read")
  .ofExcept (checkedRange buffer.len offsetBytes sizeBytes)
  let _ ← reserveBytes sizeBytes
  pure (region buffer.bytes offsetBytes sizeBytes)

end CpuQueue

/-- The refusal of a reservation. -/
def IsRefusal (e : Stop PortableError) : Prop :=
  ∃ error, e = .error (.backend ("CPU byte reservation failed: " ++ error))

theorem reserveBytes_spec (size : ℕ) :
    Fallible.Spec (fun _ => True) (reserveBytes size) (fun capacity _ => size ≤ capacity)
      fun e _ => IsRefusal e := by
  intro host _
  change Fallible.Post _ _ ((tryReserveExact size >>= _).run host)
  rw [Fallible.run_bind_ok rfl]
  cases h : host.answer 0 size with
  | ok capacity => exact host.le_answer 0 size capacity h
  | error error => exact ⟨error, rfl⟩

/-- A valid descriptor within the device's limit gives a zeroed buffer or a refusal. -/
theorem CpuDevice.createBuffer_spec (device : CpuDevice) {descriptor : BufferDesc}
    (hsize : descriptor.sizeBytes ≠ 0) (husages : descriptor.usages.isEmpty = false)
    (hle : descriptor.sizeBytes ≤ device.maxBufferBytes)
    (hmemory : descriptor.memory ≠ .deviceLocal) :
    Fallible.Spec (fun _ => True) (device.createBuffer descriptor)
      (fun buffer _ => buffer.descriptor = descriptor ∧
        buffer.bytes = List.replicate descriptor.sizeBytes 0) fun e _ => IsRefusal e := by
  have hnew : BufferDesc.new descriptor.sizeBytes descriptor.usages descriptor.memory =
      .ok descriptor := BufferDesc.new_of_ne descriptor.memory hsize husages
  simp only [createBuffer, hnew, Fallible.ofExcept_ok_bind, Outcome.require_of _ hle,
    Outcome.require_of _ hmemory]
  refine (reserveBytes_spec descriptor.sizeBytes).bind fun capacity => ?_
  exact Fallible.Spec.pure _ fun _ _ => ⟨rfl, rfl⟩

end NNIS
