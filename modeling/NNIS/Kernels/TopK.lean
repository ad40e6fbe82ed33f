import Mathlib.Data.List.GetD
import NNIS.Kernels.Reduction
import NNIS.Numeric.Binary
import NNIS.Parallel.TreeReduction

/-!
# Selection of the greatest elements

The kernels of `nnis-kernels/src/top_k.rs`. The selection of one element is a pass over the values
and passes over pairs of a value and an index, each a tree reduction of blocks of threads, until one
pair is left. The larger value is preferred, and the lower index of equal values. Threads without an
element start from negative infinity and the last index.

The selection of several elements scans a private copy of the input once for every element that is
wanted. A scan leaves the winning pair in the caller's outputs; between two scans the winner is
overwritten by negative infinity. Any launch may be refused; then the call fails and the launches
before it have run. The stream, the buffers, the workspace and the kernels share one context, and
the outputs are buffers of their own.

## Main definitions

* `Scored`, `F32TopK.prefer`, `F32TopK.topOne`.
* `F32TopK`, `F32TopKWorkspace`, `TopKDevice`.
* `F32TopK.enqueueTopK` — the selection.

## Main results

* `F32TopK.topOne_eq` — the selected index.
-/

set_option autoImplicit false

namespace NNIS

/-- A value and its index. -/
structure Scored where
  value : F32
  index : UInt32

namespace F32TopK

/-- The comparison of the kernels: the larger value, and the lower index of equal ones. -/
def prefer (incumbent candidate : Scored) : Scored :=
  if incumbent.value.lt candidate.value ||
      (candidate.value.le incumbent.value && incumbent.value.le candidate.value &&
        candidate.index < incumbent.index) then candidate
  else incumbent

/-- What a thread without an element starts from. -/
def sentinel : Scored := ⟨.infinite true, 0xFFFFFFFF⟩

/-- The default width of a block. -/
def defaultBlockSize : ℕ := 256

/-- The values with their indices. -/
def scored (logits : List F32) : List Scored :=
  (List.range logits.length).map fun i => ⟨logits.getD i (.zero false), UInt32.ofNat i⟩

/-- The index selected by blocks of some threads. -/
def topOne (blockSize : ℕ) (logits : List F32) : UInt32 :=
  ((TreeReduction.reduce prefer sentinel blockSize (scored logits)).getD sentinel).index

/-- The comparison that decides what is kept. -/
def better (candidate incumbent : Scored) : Bool :=
  incumbent.value.lt candidate.value ||
    (candidate.value.le incumbent.value && incumbent.value.le candidate.value &&
      candidate.index < incumbent.index)

theorem prefersRanked_better : PrefersRanked better Scored.value fun pair => pair.index.toNat :=
  fun _ _ hc hi => Binary.lt_or_le_iff hc hi

/-- The kernels select the lowest index of the greatest value. -/
theorem topOne_eq (k : ℕ) {logits : List F32} {token : ℕ} (htoken : token < logits.length)
    (hlength : logits.length ≤ UInt32.size) (hfinite : ∀ x ∈ logits, x.isFinite = true)
    (hbest : ∀ other < logits.length, other ≠ token →
      (logits.getD other (.zero false)).key < (logits.getD token (.zero false)).key ∨
        (logits.getD other (.zero false)).key = (logits.getD token (.zero false)).key ∧
          token < other) :
    topOne (2 ^ k) logits = UInt32.ofNat token := by
  have hvalue : ∀ i < logits.length, (logits.getD i (.zero false)).isFinite = true := by
    intro i hi
    rw [List.getD_eq_getElem _ _ hi]
    exact hfinite _ (List.getElem_mem hi)
  have hinfinite : (Binary.infinite true : F32).key < (logits.getD token (.zero false)).key := by
    have hfin : (logits.getD token (.zero false)).magnitude < binary32.infinity :=
      of_decide_eq_true (hvalue token htoken)
    change -(binary32.infinity : ℤ) < _
    rw [Binary.key]
    split_ifs <;> omega
  have hreduce : TreeReduction.reduce prefer sentinel (2 ^ k) (scored logits) =
      some ⟨logits.getD token (.zero false), UInt32.ofNat token⟩ :=
    prefersRanked_better.reduce_eq (fun _ _ => rfl)
      (fun x hx => Binary.isNaN_eq_false (hfinite x hx)) (fun _ => rfl)
      (fun j hj => UInt32.toNat_ofNat_of_lt' (hj.trans_le hlength)) htoken hbest rfl
      (.inl hinfinite) k
  rw [topOne, hreduce, Option.getD_some]

end F32TopK

/-! ### The selection of several elements -/

open TreePasses (Device Pass Slot)

/-- A loaded selector: the width of its blocks is a power of two, and its shared memory can be
counted. -/
structure F32TopK where
  blockSize : ℕ
  isPowerOfTwo : ∃ k, blockSize = 2 ^ k
  sharedMemory_lt : blockSize * 8 < u32Limit

/-- The host's part of a workspace. -/
structure F32TopKWorkspace where
  maxElements : ℕ
  blockSize : ℕ

/-- The buffers of a selection, the passes that have run and the stream of the launches. A buffer of
pairs stands for one of values and one of indices. -/
structure TopKDevice where
  data : List F32
  pairsA : List Scored
  pairsB : List Scored
  values : List F32
  indices : List UInt32
  passes : List Pass
  stream : LaunchQueue NnisError StreamWork

namespace TopKDevice

/-- A device with another stream. -/
def withStream (stream : LaunchQueue NnisError StreamWork) (device : TopKDevice) : TopKDevice :=
  { device with stream }

/-- The buffers of the scan of a round: its input are the values of the copy with their positions,
and its output is one position of the caller's buffers. -/
def view (round : ℕ) (device : TopKDevice) : F32Reduction.ReductionDevice Scored where
  buffer
    | .input => F32TopK.scored device.data
    | .scratchA => device.pairsA
    | .scratchB => device.pairsB
    | .output =>
      match device.values[round]?, device.indices[round]? with
      | some value, some index => [⟨value, index⟩]
      | _, _ => []
  passes := device.passes
  stream := device.stream

/-- Put the buffers of a scan back. -/
def update (round : ℕ) (scan : F32Reduction.ReductionDevice Scored) (device : TopKDevice) :
    TopKDevice where
  data := device.data
  pairsA := scan.buffer .scratchA
  pairsB := scan.buffer .scratchB
  values := (scan.buffer .output).head?.elim device.values fun winner =>
    device.values.set round winner.value
  indices := (scan.buffer .output).head?.elim device.indices fun winner =>
    device.indices.set round winner.index
  passes := scan.passes
  stream := scan.stream

/-- Submit a launch to the stream of a device. -/
def launch (gridSize blockSize dynamicSharedMemoryBytes : ℕ) :
    Fallible TopKDevice NnisError PUnit :=
  (LaunchQueue.submit (.launch gridSize blockSize dynamicSharedMemoryBytes)).zoom TopKDevice.stream
    TopKDevice.withStream

end TopKDevice

namespace F32TopK

variable (topK : F32TopK)

/-- The host's part of the workspace for inputs of up to a number of elements. Its copy holds so
many elements, and its buffers of pairs hold `partialCount` each. -/
def workspace (maxElements : ℕ) : F32TopKWorkspace := ⟨maxElements, topK.blockSize⟩

/-- The checks of a selection. -/
def validateExecution (input values indices k : ℕ) (workspace : F32TopKWorkspace) :
    Except NnisError Unit :=
  if k = 0 then .error (.invalidInput "top-k requires at least one element")
  else if input < k then
    .error (.invalidInput (s!"top-k input has {input} elements; selecting {k} exceeds the input " ++
      "length"))
  else if u32Limit ≤ input then .error (.invalidInput "top-k input length exceeds u32::MAX")
  else if values ≠ k ∨ indices ≠ k then
    .error (.invalidInput (s!"top-k outputs must hold exactly {k} elements; got {values} values " ++
      s!"and {indices} indices"))
  else if workspace.maxElements < input then
    .error (.invalidInput (s!"top-k input has {input} elements; workspace capacity is " ++
      s!"{workspace.maxElements}"))
  else if workspace.blockSize ≠ topK.blockSize then
    .error (.invalidInput (s!"workspace block size {workspace.blockSize} does not match top-k " ++
      s!"block size {topK.blockSize}"))
  else .ok ⟨⟩

/-- Copy the input. -/
def enqueueFill (input : List F32) : Fallible TopKDevice NnisError PUnit :=
  if u32Limit ≤ input.length ⌈/⌉ topK.blockSize then
    Fallible.fail (.invalidInput "top-k grid exceeds u32::MAX blocks")
  else do
    TopKDevice.launch (input.length ⌈/⌉ topK.blockSize) topK.blockSize 0
    Fallible.modify fun device => { device with
      data := TreePasses.overwrite device.data input }

/-- The launch of a pass over a number of elements. -/
def scanConfig (elements : ℕ) : Except NnisError StreamWork := do
  let outputElements ← partialCount topK.blockSize elements
  if u32Limit ≤ outputElements then
    .error (.invalidInput "top-k grid exceeds u32::MAX blocks")
  else .ok (.launch outputElements topK.blockSize (topK.blockSize * 8))

/-- Submit one pass. -/
def enqueueScan (p : Pass) : Fallible (LaunchQueue NnisError StreamWork) NnisError PUnit := do
  let config ← Fallible.ofExcept (topK.scanConfig p.elements)
  LaunchQueue.submit config

/-- Scan the copy and write the winner to a position of the outputs. -/
def enqueueRound (inputElements round : ℕ) : Fallible TopKDevice NnisError PUnit :=
  (TreePasses.run prefer sentinel topK.blockSize (partialCount topK.blockSize) topK.enqueueScan
    F32Reduction.unfinished inputElements).zoom (TopKDevice.view round) (TopKDevice.update round)

/-- Overwrite the element whose index is at a position of the outputs. -/
def enqueueMask (slot : ℕ) : Fallible TopKDevice NnisError PUnit := do
  TopKDevice.launch 1 1 0
  Fallible.modify fun device => { device with
    data := device.data.set (device.indices.getD slot 0).toNat (.infinite true) }

/-- Select a number of elements of the input. -/
def enqueueTopK (input : List F32) (k : ℕ) (workspace : F32TopKWorkspace) :
    Fallible TopKDevice NnisError PUnit := do
  let device ← Fallible.get
  Fallible.ofExcept (topK.validateExecution input.length device.values.length
    device.indices.length k workspace)
  topK.enqueueFill input
  Fallible.forRange k fun round => do
    topK.enqueueRound input.length round
    if round + 1 < k then enqueueMask round else pure ⟨⟩

end F32TopK

end NNIS
