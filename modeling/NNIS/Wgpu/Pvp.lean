import NNIS.Core.PvpZeta
import NNIS.Semantics.Fallible
import NNIS.Wgpu.Kernel

/-!
# The WGPU session of Pascal vector projections

The session of `nnis-wgpu/src/pvp.rs`: a bank of 32-bit words in a storage buffer, transformed by
one dispatch of the stage kernel for each digit of an address.

The reports of the device (validation, memory, the mapping of the readback buffer) are taken to be
without error, and the bytes of the buffer are kept as the words they encode.

## Main definitions

* `WgpuPvpParams`, `pvpPairIndices`, `pvpSubsetZetaStage` — the kernel.
* `WgpuPvpSessionV1`, `WgpuPvpSessionV1.new`, `WgpuPvpSessionV1.executeSubsetZeta`,
  `WgpuPvpSessionV1.snapshot`.
-/

set_option autoImplicit false

namespace NNIS

inductive WgpuPvpErrorV1
  | layout (error : PvpLayoutError)
  | geometry (message : String)
  | execution (message : String)
  deriving DecidableEq

/-! ### The kernel -/

structure WgpuPvpParams where
  addresses : ℕ
  wordsPerAddress : ℕ
  stride : ℕ
  pairCount : ℕ
  deriving DecidableEq

/-- The words that an invocation reads and writes, if it does not return before. -/
def pvpPairIndices (params : WgpuPvpParams) (linear : ℕ) :
    Outcome WgpuPvpErrorV1 (Option (ℕ × ℕ)) := do
  let total ← kernelU32 (params.pairCount * params.wordsPerAddress)
  if linear ≥ total then pure none else do
    let word := linear % params.wordsPerAddress
    let pairIndex := linear / params.wordsPerAddress
    let block := pairIndex / params.stride
    let offset := pairIndex % params.stride
    let doubleStride ← kernelU32 (2 * params.stride)
    let blockStart ← kernelU32 (block * doubleStride)
    let sourceAddress ← kernelU32 (blockStart + offset)
    let targetAddress ← kernelU32 (sourceAddress + params.stride)
    if targetAddress ≥ params.addresses then pure none else do
      let sourceRow ← kernelU32 (sourceAddress * params.wordsPerAddress)
      let sourceIndex ← kernelU32 (sourceRow + word)
      let targetRow ← kernelU32 (targetAddress * params.wordsPerAddress)
      let targetIndex ← kernelU32 (targetRow + word)
      pure (some (sourceIndex, targetIndex))

/-- An invocation of the kernel. -/
def pvpSubsetZetaStage (params : WgpuPvpParams) (stateWords : List (BitVec 32)) (linear : ℕ) :
    Outcome WgpuPvpErrorV1 (List (BitVec 32)) := do
  match ← pvpPairIndices params linear with
  | none => pure stateWords
  | some (sourceIndex, targetIndex) => do
    let target ← .index stateWords targetIndex
    let source ← .index stateWords sourceIndex
    .modifyAt stateWords targetIndex fun _ => target ^^^ source

/-! ### Sessions -/

def pvpWorkgroupSize : ℕ := 64

/-- The limits of a device. -/
structure WgpuPvpLimits where
  maxBufferSize : ℕ
  maxStorageBufferBindingSize : ℕ
  maxComputeWorkgroupsPerDimension : ℕ
  binding_lt : maxStorageBufferBindingSize < wordLimit32

structure WgpuPvpSessionV1 where
  limits : WgpuPvpLimits
  layout : PvpLayoutAdapterV1
  state : List (BitVec 32)
  executions : ℕ

structure WgpuPvpExecutionStatsV1 where
  stages : ℕ
  logicalGateXorOps : ℕ
  packedU32Updates : ℕ
  logicalDispatches : ℕ
  workgroupsPerStage : ℕ
  stateWords : ℕ
  stateBytes : ℕ
  scratchStateWords : ℕ
  executionIndex : ℕ
  deriving DecidableEq

/-- A computation on a session. -/
abbrev WgpuPvpM (α : Type) := Fallible WgpuPvpSessionV1 (Stop WgpuPvpErrorV1) α

namespace WgpuPvpSessionV1

/-- Check the size of a bank against the limits of the device and upload it. -/
def new (limits : WgpuPvpLimits) (initial : PvpWgpuU32V1) :
    Outcome WgpuPvpErrorV1 WgpuPvpSessionV1 := do
  let layout := initial.layout
  let stateBytes ← Outcome.wrap .layout (layout.storageBytes .wgpuU32)
  Outcome.require (stateBytes ≤ limits.maxBufferSize)
    (.geometry "state exceeds WGPU max_buffer_size")
  Outcome.require (stateBytes ≤ limits.maxStorageBufferBindingSize)
    (.geometry "state exceeds WGPU max_storage_buffer_binding_size")
  pure ⟨limits, layout, initial.words, 0⟩

/-- The parameters of the dispatches from a stride on. -/
def recordStages (addresses wordsPerAddress pairCount : ℕ) :
    ℕ → ℕ → Outcome WgpuPvpErrorV1 (List WgpuPvpParams)
  | 0, _ => .error .panic
  | fuel + 1, stride =>
    if stride < addresses then do
      let next ← Outcome.okOr (if stride * 2 < wordLimit32 then some (stride * 2) else none)
        (.geometry "stride overflow")
      let rest ← recordStages addresses wordsPerAddress pairCount fuel next
      pure (⟨addresses, wordsPerAddress, stride, pairCount⟩ :: rest)
    else pure []

/-- Run the recorded dispatches one after the other. -/
def submit (scheduler : Scheduler) (workgroups : ℕ) :
    ℕ → List WgpuPvpParams → List (BitVec 32) → Outcome WgpuPvpErrorV1 (List (BitVec 32))
  | _, [], stateWords => pure stateWords
  | stage, params :: rest, stateWords => do
    let order := scheduler.order stage (workgroups * pvpWorkgroupSize)
    let stateWords ← dispatch (pvpSubsetZetaStage params) order stateWords
    submit scheduler workgroups (stage + 1) rest stateWords

/-- Execute every stage over the resident state. A stride is a power of two and has 32 bits, so
there are at most 32 rounds before the last. -/
def executeSubsetZeta (scheduler : Scheduler) : WgpuPvpM WgpuPvpExecutionStatsV1 := do
  let session ← .get
  let layout := session.layout
  .ofExcept (Outcome.require (layout.addresses < wordLimit32)
    (.geometry "address count exceeds WGSL u32 index space"))
  let wordsPerAddress ← .ofExcept (Outcome.wrap .layout (layout.wordsPerAddress .wgpuU32))
  .ofExcept (Outcome.require (wordsPerAddress < wordLimit32)
    (.geometry "words per address exceed WGSL u32 index space"))
  let pairCount := layout.addresses / 2
  let invocations := pairCount * wordsPerAddress
  .ofExcept (Outcome.require (invocations < wordLimit32)
    (.geometry "dispatch invocation count overflows u32"))
  let workgroups := (invocations + (pvpWorkgroupSize - 1)) / pvpWorkgroupSize
  .ofExcept (Outcome.require (workgroups ≤ session.limits.maxComputeWorkgroupsPerDimension)
    (.geometry "dispatch exceeds max_compute_workgroups_per_dimension"))
  let stages ← .ofExcept (recordStages layout.addresses wordsPerAddress pairCount 33 1)
  let state ← .ofExcept (submit scheduler workgroups 0 stages session.state)
  .modify fun session => { session with state }
  let executions ← .ofExcept
    (Outcome.okOr (checkedAdd session.executions 1) (.geometry "execution counter overflow"))
  .modify fun session => { session with executions }
  let pairs := layout.addresses / 2 * layout.stages
  let stateWords ← .ofExcept (Outcome.wrap .layout (layout.storageWords .wgpuU32))
  let stateBytes ← .ofExcept (Outcome.wrap .layout (layout.storageBytes .wgpuU32))
  pure
    { stages := layout.stages
      logicalGateXorOps := pairs * layout.gates
      packedU32Updates := pairs * wordsPerAddress
      logicalDispatches := layout.stages
      workgroupsPerStage := workgroups
      stateWords
      stateBytes
      scratchStateWords := 0
      executionIndex := executions }

/-- Read back and validate the resident state. -/
def snapshot (session : WgpuPvpSessionV1) : Outcome WgpuPvpErrorV1 PvpWgpuU32V1 := do
  let bytes ← Outcome.wrap .layout (session.layout.storageBytes .wgpuU32)
  Outcome.require (session.state.length * 4 = bytes)
    (.execution "readback byte length does not match PVP layout")
  Outcome.wrap .layout (PvpBank.new session.layout session.state)

end WgpuPvpSessionV1

end NNIS
