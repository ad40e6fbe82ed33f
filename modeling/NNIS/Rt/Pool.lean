import NNIS.Parallel.StreamOrder
import NNIS.Rt.Driver
import NNIS.Semantics.Checked
import NNIS.Semantics.Replies

/-!
# Stream-ordered pools

The allocator and its buffers of `nnis-rt/src/pool.rs`, with the streams and events of
`nnis-rt/src/stream_event.rs`. Every native call may be refused. A call that is accepted submits its
work to a stream and returns, so the state keeps what has been submitted; what the device does with
it is a matter of `Timeline`. The pool may place an allocation anywhere outside the blocks that have
not been freed on the stream of the allocator.

The number of a buffer is not part of the source: it names the buffer in the timeline. Host slices
and device contents are their bytes.

## Main definitions

* `CudaStream`, `CudaEvent` — the handles of the driver, with their contexts.
* `PoolRuntime`, `PoolM` — the driver behind the pool, and computations on it.
* `StreamOrderedAllocator`, `StreamOrderedAllocator.alloc`.
* `PooledBuffer`, `PooledBuffer.shareWith`, `PooledBuffer.ensureStreamAccess`, `PooledBuffer.drop`.
* `PoolSystem`, `PoolCall`, `PoolSystem.perform` — a program that uses one allocator.
-/

set_option autoImplicit false

namespace NNIS

/-- A stream and the context that it belongs to. -/
structure CudaStream where
  raw : ℕ
  ctx : ℕ
  deriving DecidableEq

/-- An event and the context that it belongs to. -/
structure CudaEvent where
  raw : ℕ
  ctx : ℕ
  deriving DecidableEq

/-- A range of device addresses. -/
structure PoolBlock where
  ptr : ℕ
  bytes : ℕ
  deriving DecidableEq

/-- Two blocks have no address in common. -/
def PoolBlock.Apart (a b : PoolBlock) : Prop := a.ptr + a.bytes ≤ b.ptr ∨ b.ptr + b.bytes ≤ a.ptr

instance (a b : PoolBlock) : Decidable (a.Apart b) := inferInstanceAs (Decidable (_ ∨ _))

/-- The work that a program submits: on the memory of a pooled buffer, or none of the pool's
business. -/
inductive PoolWork
  | alloc (buffer : ℕ) (block : PoolBlock)
  | read (buffer : ℕ) (block : PoolBlock)
  | write (buffer : ℕ) (block : PoolBlock) (bytes : List UInt8)
  | free (buffer : ℕ) (block : PoolBlock)
  | other
  deriving DecidableEq

/-- The driver behind a pool. -/
structure PoolRuntime where
  /-- The refusal of the call with a given number, if it is refused. -/
  refuse : ℕ → Option String
  /-- The place of an allocation of some bytes. -/
  place : Timeline CudaStream ℕ PoolWork → (bytes : ℕ) → (live : List PoolBlock) →
    {ptr : ℕ // 0 < ptr ∧ ∀ block ∈ live, block.Apart ⟨ptr, bytes⟩}
  calls : ℕ
  events : ℕ
  buffers : ℕ
  /-- The blocks that have been allocated and not freed. -/
  live : List PoolBlock
  timeline : Timeline CudaStream ℕ PoolWork

/-- Computations on a driver. -/
abbrev PoolM := Fallible PoolRuntime NnisError

/-- One call of the driver. -/
def PoolRuntime.nativeCall : PoolM Unit :=
  ⟨fun s =>
    match s.refuse s.calls with
    | none => (.ok (), { s with calls := s.calls + 1 })
    | some description => (.error (.native description), { s with calls := s.calls + 1 })⟩

/-- The tail of a stream gets a submission. -/
def PoolRuntime.submit (stream : CudaStream) (submitted : Submitted ℕ PoolWork) : PoolM Unit :=
  .modify fun s => { s with timeline := s.timeline ++ [⟨stream, submitted⟩] }

open PoolRuntime

/-- Make a context current. -/
def setCurrent (_ctx : ℕ) : PoolM Unit := nativeCall

namespace CudaEvent

def new (ctx : ℕ) : PoolM CudaEvent := do
  setCurrent ctx
  nativeCall
  let s ← .get
  .modify fun s => { s with events := s.events + 1 }
  pure ⟨s.events, ctx⟩

/-- Record the event on a stream at its current tail position. -/
def record (self : CudaEvent) (stream : CudaStream) : PoolM Unit :=
  if self.ctx = stream.ctx then do
    setCurrent self.ctx
    nativeCall
    submit stream (.record self.raw)
  else .fail (.invalidInput "event and stream belong to different contexts")

end CudaEvent

namespace CudaStream

/-- Make a stream wait until an event has completed. -/
def waitEvent (self : CudaStream) (event : CudaEvent) : PoolM Unit :=
  if self.ctx = event.ctx then do
    setCurrent self.ctx
    nativeCall
    submit self (.wait event.raw)
  else .fail (.invalidInput "stream and event belong to different contexts")

/-- Block until all submitted work of the stream completes. -/
def synchronize (self : CudaStream) : PoolM Unit := do
  setCurrent self.ctx
  nativeCall

end CudaStream

/-- A device buffer of a pool. -/
structure PooledBuffer where
  id : ℕ
  ptr : ℕ
  len : ℕ
  /-- The size of an element. -/
  size : ℕ
  stream : CudaStream
  /-- The streams that have been granted access, in grant order. -/
  consumers : List CudaStream

/-- An allocator is bound to exactly one stream. -/
structure StreamOrderedAllocator where
  stream : CudaStream

/-- Enqueue an allocation of a number of elements of a size. -/
def StreamOrderedAllocator.alloc (self : StreamOrderedAllocator) (size len : ℕ) :
    PoolM PooledBuffer := do
  let bytes ← .ofExcept
    (orInvalid "pooled allocation size overflows usize" (checkedMul len size))
  setCurrent self.stream.ctx
  let s ← .get
  let buffer : PooledBuffer := ⟨s.buffers, 0, len, size, self.stream, []⟩
  if 0 < bytes then do
    nativeCall
    let s ← .get
    let ptr := s.place s.timeline bytes s.live
    let block : PoolBlock := ⟨ptr.1, bytes⟩
    submit self.stream (.work (.alloc s.buffers block))
    .modify fun s => { s with live := block :: s.live, buffers := s.buffers + 1 }
    pure { buffer with ptr := ptr.1 }
  else do
    .modify fun s => { s with buffers := s.buffers + 1 }
    pure buffer

namespace PooledBuffer

def isEmpty (self : PooledBuffer) : Bool := self.len = 0

def sizeBytes (self : PooledBuffer) : ℕ := self.len * self.size

/-- The device addresses of the buffer. -/
def block (self : PooledBuffer) : PoolBlock := ⟨self.ptr, self.sizeBytes⟩

/-- Grant a stream access to the contents of the buffer. -/
def shareWith (self : PooledBuffer) (other : CudaStream) : PoolM PooledBuffer :=
  if self.stream.ctx = other.ctx then
    if self.stream.raw = other.raw then pure self
    else do
      -- The history of the allocating stream happens before the work of the other one.
      let produced ← CudaEvent.new self.stream.ctx
      produced.record self.stream
      other.waitEvent produced
      if self.consumers.any fun stream => stream.raw = other.raw then pure self
      else pure { self with consumers := self.consumers ++ [other] }
  else .fail (.invalidInput "pooled-buffer share target must live in the buffer's context")

/-- The number of consumer streams registered. -/
def consumerCount (self : PooledBuffer) : ℕ := self.consumers.length

def ensureStreamAccess (self : PooledBuffer) (stream : CudaStream) : Except NnisError Unit :=
  if self.stream.ctx = stream.ctx then
    if self.stream.raw = stream.raw then .ok ()
    else if self.consumers.any fun consumer => consumer.raw = stream.raw then .ok ()
    else .error (.invalidInput "pooled buffer stream access requires share_with() grant")
  else .error (.invalidInput "pooled buffer and stream must share one context")

/-- Enqueue work on the memory of the buffer, if the stream has access to it. -/
def accessAsync (self : PooledBuffer) (stream : CudaStream) (work : PoolWork) : PoolM Unit := do
  .ofExcept (self.ensureStreamAccess stream)
  if self.ptr = 0 then pure ()
  else do
    setCurrent stream.ctx
    nativeCall
    submit stream (.work work)

/-- Enqueue zero-fill. -/
def zeroAsync (self : PooledBuffer) (stream : CudaStream) : PoolM Unit :=
  self.accessAsync stream (.write self.id self.block (List.replicate self.sizeBytes 0))

/-- Enqueue a copy of host data, given by its bytes. -/
def copyFromHostAsync (self : PooledBuffer) (stream : CudaStream) (src : List UInt8) : PoolM Unit :=
  if src.length = self.sizeBytes then
    self.accessAsync stream (.write self.id self.block src)
  else .fail (.invalidInput
    (s!"host slice length {src.length / self.size} does not match pooled " ++
    s!"buffer length {self.len}"))

/-- Enqueue a copy to a host slice of a number of elements. -/
def copyToHostAsync (self : PooledBuffer) (stream : CudaStream) (dst : ℕ) : PoolM Unit :=
  if dst = self.len then self.accessAsync stream (.read self.id self.block)
  else .fail (.invalidInput
    s!"host slice length {dst} does not match pooled buffer length {self.len}")

/-- Enqueue and wait for completion. -/
def completed (self : PooledBuffer) (stream : CudaStream) (enqueue : PoolM Unit) : PoolM Unit := do
  enqueue
  if self.ptr ≠ 0 then stream.synchronize else pure ()

def zero (self : PooledBuffer) (stream : CudaStream) : PoolM Unit :=
  self.completed stream (self.zeroAsync stream)

def copyFromHost (self : PooledBuffer) (stream : CudaStream) (src : List UInt8) : PoolM Unit :=
  self.completed stream (self.copyFromHostAsync stream src)

def copyToHost (self : PooledBuffer) (stream : CudaStream) (dst : ℕ) : PoolM Unit :=
  self.completed stream (self.copyToHostAsync stream dst)

def toVec (self : PooledBuffer) (stream : CudaStream) : PoolM Unit :=
  self.copyToHost stream self.len

/-- A kernel of the program that is given the device address of the buffer: it reads the buffer, or
leaves some bytes in it. -/
def launchOn (self : PooledBuffer) (stream : CudaStream) (output : Option (List UInt8)) :
  PoolM Unit := if self.ptr = 0 then submit stream (.work .other)
  else submit stream (.work (match output with
    | none => .read self.id self.block
    | some bytes => .write self.id self.block bytes))

/-- Order the allocating stream after what a consumer has been given, as far as the driver lets
it. -/
def awaitConsumer (self : PooledBuffer) (consumer : CudaStream) : PoolM Unit := do
  match ← .attempt (CudaEvent.new consumer.ctx) with
  | .error _ => pure ()
  | .ok consumed => do
    match ← .attempt (consumed.record consumer) with
    | .error _ => pure ()
    | .ok _ => do
      let _ ← .attempt (self.stream.waitEvent consumed)
      pure ()

/-- Enqueue the free of the block of the buffer. -/
def enqueueFree (self : PooledBuffer) : PoolM Unit := do
  nativeCall
  submit self.stream (.work (.free self.id self.block))
  .modify fun s => { s with live := s.live.erase self.block }

/-- Failures cannot be surfaced. -/
def drop (self : PooledBuffer) : PoolM Unit :=
  if self.ptr = 0 then pure ()
  else do
    .forEach self.consumers self.awaitConsumer
    let _ ← .attempt (setCurrent self.stream.ctx)
    let _ ← .attempt self.enqueueFree
    pure ()

end PooledBuffer

/-! ### Programs -/

/-- A program with an allocator and the buffers that it has got; a buffer that has been dropped
leaves its place empty. -/
structure PoolSystem where
  allocator : StreamOrderedAllocator
  runtime : PoolRuntime
  buffers : List (Option PooledBuffer)

/-- What a program does: calls of the pool, and submissions of its own to any stream. -/
inductive PoolCall
  | alloc (size len : ℕ)
  | shareWith (buffer : ℕ) (other : CudaStream)
  | zeroAsync (buffer : ℕ) (stream : CudaStream)
  | zero (buffer : ℕ) (stream : CudaStream)
  | copyFromHostAsync (buffer : ℕ) (stream : CudaStream) (src : List UInt8)
  | copyFromHost (buffer : ℕ) (stream : CudaStream) (src : List UInt8)
  | copyToHostAsync (buffer : ℕ) (stream : CudaStream) (dst : ℕ)
  | copyToHost (buffer : ℕ) (stream : CudaStream) (dst : ℕ)
  | toVec (buffer : ℕ) (stream : CudaStream)
  | drop (buffer : ℕ)
  | launchOn (buffer : ℕ) (stream : CudaStream) (output : Option (List UInt8))
  | launch (stream : CudaStream)
  | record (event : CudaEvent) (stream : CudaStream)
  | waitEvent (stream : CudaStream) (event : CudaEvent)

namespace PoolSystem

/-- The buffer of a handle, if there is one. -/
def buffer? (self : PoolSystem) (handle : ℕ) : Option PooledBuffer := (self.buffers[handle]?).join

/-- Run a computation that leaves the buffers as they are. -/
def run (m : PoolM Unit) (self : PoolSystem) : Except NnisError Unit × PoolSystem :=
  let result := m.run self.runtime
  (result.1, { self with runtime := result.2 })

/-- Run a computation that gives a buffer, to be put into the table. -/
def runInto (m : PoolM PooledBuffer) (update : PooledBuffer → List (Option PooledBuffer))
    (self : PoolSystem) : Except NnisError Unit × PoolSystem :=
  match m.run self.runtime with
  | (.ok buffer, runtime) => (.ok (), { self with runtime, buffers := update buffer })
  | (.error e, runtime) => (.error e, { self with runtime })

/-- Run a computation on a buffer; without the buffer there is no call to make. -/
def runOn (handle : ℕ) (self : PoolSystem)
    (f : PooledBuffer → Except NnisError Unit × PoolSystem) :
    Except NnisError Unit × PoolSystem :=
  match self.buffer? handle with
  | some buffer => f buffer
  | none => (.ok (), self)

/-- One step of a program. -/
def perform (call : PoolCall) (self : PoolSystem) : Except NnisError Unit × PoolSystem :=
  match call with
  | .alloc size len =>
    self.runInto (self.allocator.alloc size len) fun buffer => self.buffers ++ [some buffer]
  | .shareWith handle other => self.runOn handle fun buffer =>
    self.runInto (buffer.shareWith other) fun buffer => self.buffers.set handle (some buffer)
  | .zeroAsync handle stream => self.runOn handle fun buffer => self.run (buffer.zeroAsync stream)
  | .zero handle stream => self.runOn handle fun buffer => self.run (buffer.zero stream)
  | .copyFromHostAsync handle stream src => self.runOn handle fun buffer =>
    self.run (buffer.copyFromHostAsync stream src)
  | .copyFromHost handle stream src => self.runOn handle fun buffer =>
    self.run (buffer.copyFromHost stream src)
  | .copyToHostAsync handle stream dst => self.runOn handle fun buffer =>
    self.run (buffer.copyToHostAsync stream dst)
  | .copyToHost handle stream dst => self.runOn handle fun buffer =>
    self.run (buffer.copyToHost stream dst)
  | .toVec handle stream => self.runOn handle fun buffer => self.run (buffer.toVec stream)
  | .drop handle => self.runOn handle fun buffer =>
    { self with buffers := self.buffers.set handle none }.run buffer.drop
  | .launchOn handle stream output => self.runOn handle fun buffer =>
    self.run (buffer.launchOn stream output)
  | .launch stream => self.run (submit stream (.work .other))
  | .record event stream => self.run (event.record stream)
  | .waitEvent stream event => self.run (stream.waitEvent event)

/-- A program that has done nothing yet. -/
structure Starts (system : PoolSystem) : Prop where
  buffers_eq : system.buffers = []
  numbered : system.runtime.buffers = 0
  live_eq : system.runtime.live = []
  timeline_eq : system.runtime.timeline = []

end PoolSystem

end NNIS
