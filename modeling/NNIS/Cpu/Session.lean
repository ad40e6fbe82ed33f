import NNIS.Core.PortableKvHistory
import NNIS.Cpu.KvFp4Shadow
import NNIS.Cpu.Numerical

/-!
# The portable session on the CPU

`nnis-cpu/src/session.rs`: a synthetic model over the reference kernels and the host cache. A token
is staged, which publishes logits, and then committed to the cache, which adds its row to a running
sum. A call runs on the session and the answers of the host's allocator, and leaves the session as
the completed statements left it.

## Main definitions

* `CpuPortableSession`, `CpuPortableSession.withStorageMode`.
* `CpuPortableSession.stageToken`, `CpuPortableSession.advanceKv`, `CpuPortableSession.encode`,
  `CpuPortableSession.decodeOne`, `CpuPortableSession.truncate`, `CpuPortableSession.reset`.
* `PortableSessionCallV1`, `CpuPortableSession.perform` — the calls and their answers.
-/

set_option autoImplicit false

namespace NNIS

/-- Report an error of the device as an error of a session. -/
def mapPortable : Stop PortableError → Stop PortableSessionError
  | .error e => .error (.backend e.text)
  | .panic => .panic

/-- A computation of a session that asks the host for memory. -/
abbrev SessionHostM (α : Type) := Fallible Allocator (Stop PortableSessionError) α

namespace CpuPortableSession

open Outcome

/-- A computation of the device, reported as one of a session. -/
def portable {α : Type} (m : HostM α) : SessionHostM α := m.mapError mapPortable

/-! ### Tensors -/

/-- The usages of the buffers of a session. -/
def tensorUsages : BufferUsages :=
  BufferUsages.storage ||| BufferUsages.copySrc ||| BufferUsages.copyDst

/-- A buffer that holds the values. -/
def tensor (device : CpuDevice) (values : List F32) : SessionHostM CpuBuffer := do
  .ofExcept (require (values ≠ []) (.invalid "portable session buffer must be non-empty"))
  let bytes := F32.bytes values
  portable do
    let descriptor ← .ofExcept (BufferDesc.new bytes.length tensorUsages .host)
    let buffer ← device.createBuffer descriptor
    .ofExcept (CpuQueue.writeBuffer buffer 0 bytes)

/-- The values of a buffer. -/
def readF32 (buffer : CpuBuffer) : SessionHostM (List F32) := do
  let bytes ← portable (CpuQueue.readBuffer buffer 0 buffer.len)
  .ofExcept (require (bytes.length % 4 = 0)
    (.invalid "portable session buffer length is not a multiple of 4"))
  pure (F32.words bytes)

variable (spec : SyntheticPortableModelSpecV1)

/-- The value that a weight of the model is set to. -/
def unitWeight : F32 := .ofNat 1

def oneHotEmbedding (device : CpuDevice) : SessionHostM CpuBuffer := do
  let values ← .ofExcept ((List.range spec.vocabSize).foldlM (fun values token =>
      modifyAt values (token * spec.hiddenSize + token % spec.hiddenSize) fun _ => unitWeight)
    (List.replicate (spec.vocabSize * spec.hiddenSize) (.zero false)))
  tensor device values

/-- The weights are row-major `[hidden, vocab]`. -/
def identityLmHead (device : CpuDevice) : SessionHostM CpuBuffer := do
  let values ← .ofExcept ((List.range (min spec.hiddenSize spec.vocabSize)).foldlM (fun values i =>
      modifyAt values (i * spec.vocabSize + i) fun _ => unitWeight)
    (List.replicate (spec.hiddenSize * spec.vocabSize) (.zero false)))
  tensor device values

end CpuPortableSession

/-! ### Sessions -/

/-- Numerical policy identity shared with the portable graph and the CPU kernels. -/
def portableSessionPolicy : String := "finite-f32-le-ordered-fma-v1"

/-- CPU portable session over a synthetic analytical model. -/
structure CpuPortableSession where
  spec : SyntheticPortableModelSpecV1
  device : CpuDevice
  kernels : CpuF32KernelsV1
  embedding : CpuBuffer
  lmHead : CpuBuffer
  kv : PortableKvCacheV1
  fp4Shadow : Option PortableFp4KvShadowV1
  runningSum : List F32
  pendingRow : Option (List F32)
  logits : List F32
  position : ℕ

namespace CpuPortableSession

open Outcome

/-- Build a session with a storage mode of its cache. -/
def withStorageMode (spec : SyntheticPortableModelSpecV1) (mode : PortableKvStorageModeV1) :
    SessionHostM CpuPortableSession := do
  .ofExcept (require (portableSessionPolicy = "finite-f32-le-ordered-fma-v1")
    (.invalid "portable session policy identity mismatch"))
  let device ← portable (.ofExcept (CpuDevice.withMaxBufferBytes (2 ^ 20)))
  let kernels ← portable (.ofExcept
    (CpuF32KernelsV1.new (max spec.hiddenSize spec.vocabSize * 4)))
  let embedding ← oneHotEmbedding spec device
  let lmHead ← identityLmHead spec device
  let kv ← PortableKvCacheV1.withStorageMode spec.layers spec.capacity spec.hiddenSize mode
  let fp4Shadow ← .ofExcept (PortableFp4KvShadowV1.new kv mode)
  pure
    { spec, device, kernels, embedding, lmHead, kv, fp4Shadow
      runningSum := List.replicate spec.hiddenSize (.zero false)
      pendingRow := none
      logits := []
      position := 0 }

/-- Build a session without a shadow of its cache. -/
def new (spec : SyntheticPortableModelSpecV1) : SessionHostM CpuPortableSession :=
  withStorageMode spec .denseF32

/-- A computation on a session and the host. -/
abbrev SessionM (α : Type) :=
  Fallible (CpuPortableSession × Allocator) (Stop PortableSessionError) α

/-- A computation that asks the host for memory and leaves the session alone. -/
def onHost {α : Type} (m : SessionHostM α) : SessionM α :=
  m.zoom Prod.snd fun host s => (s.1, host)

/-- Replace the session. -/
def update (f : CpuPortableSession → CpuPortableSession) : SessionM PUnit :=
  .modify fun s => (f s.1, s.2)

/-- The session. -/
def this : SessionM CpuPortableSession := do
  let s ← .get
  pure s.1

/-- A call of the cache. -/
def onCache (m : Fallible PortableKvCacheV1 (Stop PortableSessionError) PUnit) : SessionM PUnit :=
  m.zoom (fun s => s.1.kv) fun kv s => ({ s.1 with kv }, s.2)

variable (log2Ceil : F64 → ℤ)

def syncFp4Shadow : SessionM PUnit := do
  let s ← this
  match s.fp4Shadow with
  | none => pure ⟨⟩
  | some shadow =>
    (PortableFp4KvShadowV1.syncFromDense log2Ceil s.kv).zoom (fun s => (shadow, s.2))
      fun r s => ({ s.1 with fp4Shadow := some r.1 }, r.2)

def validateToken (s : CpuPortableSession) (token : UInt32) : Outcome PortableSessionError ℕ := do
  require (token.toNat < s.spec.vocabSize) (.invalid "token id exceeds synthetic vocabulary")
  pure token.toNat

def gatherEmbedding (s : CpuPortableSession) (tokenIndex : ℕ) : SessionHostM (List F32) := do
  let hidden := s.spec.hiddenSize
  let row ← tensor s.device (List.replicate hidden (.zero false))
  -- Gather `hidden` contiguous elements.
  let indices := (List.range hidden).map fun i => tokenIndex * hidden + i
  let (row, _) ← portable (s.kernels.gather s.embedding indices row)
  readF32 row

/-- The sum of the running sum and a row, as a buffer. -/
def addToSum (s : CpuPortableSession) (sumBuf rowBuf : CpuBuffer) : SessionHostM CpuBuffer := do
  let out ← tensor s.device (List.replicate s.spec.hiddenSize (.zero false))
  let (out, _) ← portable (s.kernels.binary .add sumBuf rowBuf out)
  pure out

/-- The projection of a buffer by the head. -/
def projectLogits (s : CpuPortableSession) (input : CpuBuffer) : SessionHostM (List F32) := do
  let out ← tensor s.device (List.replicate s.spec.vocabSize (.zero false))
  let (out, _) ← portable
    (s.kernels.projectKn input s.lmHead out s.spec.hiddenSize s.spec.vocabSize)
  readF32 out

def refreshLogitsFromSum : SessionM PUnit := do
  let s ← this
  let input ← onHost (tensor s.device s.runningSum)
  let logits ← onHost (s.projectLogits input)
  update fun s => { s with logits }

def stageToken (token : UInt32) : SessionM (List F32) := do
  let s ← this
  .ofExcept (require (s.pendingRow.isSome = false) (.state
    "portable session already has a pending KV row; advance_kv or truncate first"))
  let tokenIndex ← .ofExcept (s.validateToken token)
  let nextLen ← .ofExcept
    (okOr (checkedAdd s.kv.length 1) (.invalid "portable session length overflow"))
  .ofExcept (require (nextLen ≤ s.spec.capacity)
    (.state "portable session encode/decode would exceed KV capacity"))
  let row ← onHost (s.gatherEmbedding tokenIndex)
  let rowBuf ← onHost (tensor s.device row)
  let sumBuf ← onHost (tensor s.device s.runningSum)
  let outSum ← onHost (s.addToSum sumBuf rowBuf)
  let logits ← onHost (s.projectLogits outSum)
  update fun s => { s with logits }
  -- The row is kept; the running sum is updated when it is committed.
  update fun s => { s with pendingRow := some row }
  pure logits

def advanceKv : SessionM PUnit := do
  let s ← this
  update fun s => { s with pendingRow := none }
  let row ← .ofExcept
    (okOr s.pendingRow (.state "portable session advance_kv requires a staged token"))
  let sumBuf ← onHost (tensor s.device s.runningSum)
  let rowBuf ← onHost (tensor s.device row)
  let outSum ← onHost (s.addToSum sumBuf rowBuf)
  let runningSum ← onHost (readF32 outSum)
  update fun s => { s with runningSum }
  -- The rows of all layers are identical.
  onCache (PortableKvCacheV1.append (List.replicate s.spec.layers row))
  let position ← .ofExcept
    (okOr (checkedAdd s.position 1) (.invalid "portable session position overflow"))
  update fun s => { s with position }
  syncFp4Shadow log2Ceil

def encode (tokens : List UInt32) : SessionM (List F32) := do
  .ofExcept (require (tokens ≠ [])
    (.invalid "portable session encode requires a non-empty token list"))
  let s ← this
  .ofExcept (require (s.position = 0 ∧ s.kv.isEmpty = true ∧ s.pendingRow.isSome = false)
    (.state "portable session encode requires a fresh (reset) session"))
  Fallible.forEach tokens fun token => do
    let _ ← stageToken token
    advanceKv log2Ceil
  let s ← this
  pure s.logits

def decodeOne (token : UInt32) : SessionM (List F32) := do
  let s ← this
  .ofExcept (require (s.pendingRow.isSome = false)
    (.state "portable session decode_one requires no pending KV row"))
  let _ ← stageToken token
  advanceKv log2Ceil
  let s ← this
  pure s.logits

/-- Add a value of a row to the value at its place in the running sum. -/
def addValue (entry : (F32 × F32) × ℕ) : SessionM PUnit := do
  let sum := entry.1.1.add entry.1.2
  .ofExcept (require (sum.isFinite = true)
    (.invalid "portable session truncate recomputed a non-finite sum"))
  update fun s => { s with runningSum := s.runningSum.set entry.2 sum }

/-- Add a committed row to the running sum, one value after the other. -/
def accumulateRow (index : ℕ) : SessionM PUnit := do
  let s ← this
  let row ← .ofExcept (s.kv.row 0 index)
  Fallible.forEach (s.runningSum.zip row).zipIdx addValue

def truncate (length : ℕ) : SessionM PUnit := do
  let s ← this
  .ofExcept (require (length ≤ s.kv.length)
    (.invalid "portable session truncate length exceeds kv_len"))
  update fun s => { s with pendingRow := none }
  onCache (PortableKvCacheV1.truncate length)
  update fun s => { s with position := length }
  update fun s => { s with runningSum := s.runningSum.map fun _ => .zero false }
  Fallible.forRange length accumulateRow
  if length = 0 then update fun s => { s with logits := [] }
  else refreshLogitsFromSum
  syncFp4Shadow log2Ceil

def reset : SessionM PUnit := do
  update fun s => { s with pendingRow := none }
  update fun s => { s with kv := s.kv.reset }
  update fun s => { s with runningSum := s.runningSum.map fun _ => .zero false }
  update fun s => { s with logits := [] }
  update fun s => { s with position := 0 }
  syncFp4Shadow log2Ceil

end CpuPortableSession

/-! ### Reads -/

namespace CpuPortableSession

variable (s : CpuPortableSession)

def kvLen : ℕ := s.kv.length

def hasPendingKv : Bool := s.pendingRow.isSome

/-- The shadow of one layer decoded to dense values, or nothing without a shadow. -/
def fp4ShadowDecodeLayer (layer : ℕ) : SessionHostM (Option (List F32)) :=
  match s.fp4Shadow with
  | some shadow => some <$> shadow.decodeLayer layer
  | none => pure none

end CpuPortableSession

/-! ### Calls -/

/-- The calls of a portable session. -/
inductive PortableSessionCallV1
  | stageToken (token : UInt32)
  | advanceKv
  | encode (tokens : List UInt32)
  | decodeOne (token : UInt32)
  | truncate (length : ℕ)
  | reset
  deriving DecidableEq

/-- The answer to a call: logits where the call returns them. -/
abbrev PortableSessionReplyV1 := Outcome PortableSessionError (Option (List F32))

namespace CpuPortableSession

/-- The computation of a call. -/
def invoke (log2Ceil : F64 → ℤ) (call : PortableSessionCallV1) : SessionM (Option (List F32)) :=
  match call with
  | .stageToken token => some <$> stageToken token
  | .advanceKv => (fun _ => none) <$> advanceKv log2Ceil
  | .encode tokens => some <$> encode log2Ceil tokens
  | .decodeOne token => some <$> decodeOne log2Ceil token
  | .truncate length => (fun _ => none) <$> truncate log2Ceil length
  | .reset => (fun _ => none) <$> reset log2Ceil

/-- What a call does, and its answer. -/
def perform (log2Ceil : F64 → ℤ) (call : PortableSessionCallV1)
    (s : CpuPortableSession × Allocator) :
    PortableSessionReplyV1 × CpuPortableSession × Allocator :=
  (invoke log2Ceil call).run s

end CpuPortableSession

end NNIS
