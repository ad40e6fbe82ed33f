import NNIS.Numeric.Binary
import NNIS.Parallel.ReductionTree
import NNIS.Parallel.LaunchQueue
import NNIS.Parallel.TreePasses
import NNIS.Rt.Driver
import NNIS.Semantics.Checked
import NNIS.Semantics.Outcome

/-!
# Reductions

The multi-pass reductions of `nnis-kernels/src/reduction.rs`: the sum and the maximum of a buffer,
and its greatest element with the least index of it. All are tree reductions whose passes alternate
between two scratch buffers. A launch that has passed the checks of the host may still be refused,
by the checks of `nnis-jit/src/launch.rs` or by the driver; then the call fails and the passes
before it have run. The stream, the buffers, the workspace and the kernels share one context, and
the output is a buffer of its own.

## Main definitions

* `StreamWork` — what is submitted to a stream.
* `partialCount`, `F32Reduction`, `ReductionMath`.
* `F32Reduction.enqueueTree`, `F32Reduction.enqueueSum`, `F32Reduction.enqueueMax`.
* `Best`, `F32Reduction.enqueueArgmax`.
-/

set_option autoImplicit false

namespace NNIS

open TreePasses (Device Pass Slot)

/-- The number of blocks of a pass. -/
def partialCount (blockSize elements : ℕ) : Except NnisError ℕ :=
  if elements = 0 then .ok 0
  else do
    let elementsPerBlock ← orInvalid "reduction block span overflows usize"
      (checkedMul blockSize 2)
    return elements ⌈/⌉ elementsPerBlock

/-- The number of blocks is that of whole and begun spans. -/
theorem partialCount_eq {blockSize : ℕ} (h : blockSize * 2 < wordLimit) (elements : ℕ) :
    partialCount blockSize elements = .ok (elements ⌈/⌉ (blockSize * 2)) := by
  rw [partialCount]
  split_ifs with hzero
  · rw [hzero, zero_ceilDiv]
  · rw [checkedMul_of_lt h]
    rfl

/-- The number of values of a 32-bit integer. -/
abbrev u32Limit : ℕ := 2 ^ 32

/-! ### Submitted work -/

/-- What the host submits to a stream: a launch over a grid with one extent, or a fill with
bytes. -/
inductive StreamWork
  | launch (gridSize blockSize dynamicSharedMemoryBytes : ℕ)
  | memset (bytes : ℕ)
  deriving DecidableEq

/-- The greatest first extent of a grid that the driver accepts. -/
abbrev maxGridXBlocks : ℕ := 2 ^ 31 - 1

namespace StreamWork

/-- The first extent of the grid of a launch. -/
def blocks : StreamWork → ℕ
  | launch gridSize .. => gridSize
  | memset _ => 0

/-- Work within the limit of a grid. -/
def WithinGrid (work : StreamWork) : Prop := work.blocks ≤ maxGridXBlocks

/-- A launch over a longer grid. -/
def BeyondGrid (work : StreamWork) : Prop := maxGridXBlocks < work.blocks

/-- A stream whose driver refuses the longer grids and nothing else. -/
def gridLimited : LaunchQueue NnisError StreamWork :=
  .fresh fun _ work => if work.blocks ≤ maxGridXBlocks then none
    else some (.native "cuLaunchKernel failed")

theorem accepts_gridLimited : gridLimited.Accepts WithinGrid := fun _ _ h => if_pos h

theorem refuses_gridLimited : gridLimited.Refuses BeyondGrid := by
  intro before work h hnone
  have hsome : gridLimited.refusal before work = some (.native "cuLaunchKernel failed") :=
    if_neg (Nat.not_le.2 h)
  rw [hnone] at hsome
  cases hsome

end StreamWork

/-- The device operations of the reductions. The greater of two numbers may be either one when they
compare equal. -/
structure ReductionMath where
  add : F32 → F32 → F32
  fmaxf : F32 → F32 → F32
  fmaxf_eq : ∀ x y, x.isNaN = false → y.isNaN = false → fmaxf x y = x ∨ fmaxf x y = y
  key_fmaxf : ∀ x y, x.isNaN = false → y.isNaN = false → (fmaxf x y).key = max x.key y.key

/-- The operations of the standard. -/
def ReductionMath.ieee : ReductionMath where
  add := Binary.add
  fmaxf := Binary.max
  fmaxf_eq x y hx hy := by
    rw [Binary.max, hx, hy]
    simp only [Bool.false_eq_true, if_false]
    split_ifs
    · exact .inr rfl
    · exact .inl rfl
  key_fmaxf x y hx hy := by
    rw [Binary.max, Binary.lt, hx, hy]
    simp only [Bool.false_eq_true, if_false, Bool.not_false, Bool.true_and, decide_eq_true_eq]
    split_ifs with h
    · exact (max_eq_right h.le).symm
    · exact (max_eq_left (Int.not_lt.1 h)).symm

/-- A loaded reduction: the width of its blocks is a power of two, and its shared memory can be
counted. -/
structure F32Reduction where
  blockSize : ℕ
  isPowerOfTwo : ∃ k, blockSize = 2 ^ k
  sharedMemory_lt : blockSize * 12 < u32Limit

/-- The host's part of a workspace. -/
structure ReductionWorkspace where
  maxElements : ℕ
  blockSize : ℕ

/-- The operator of a tree. -/
inductive TreeKind
  | sum | max

namespace F32Reduction

variable (reduction : F32Reduction)

/-- The host's part of the workspace for inputs of up to a number of elements. Its scratch buffers
hold `partialCount` elements each. -/
def workspace (maxElements : ℕ) : ReductionWorkspace := ⟨maxElements, reduction.blockSize⟩

/-- The checks of the input against the workspace; `operation` is what the messages begin with. -/
def validateExecution (operation : String) (elements : ℕ) (workspace : ReductionWorkspace) :
    Except NnisError Unit :=
  if workspace.maxElements < elements then
    .error (.invalidInput (s!"{operation} input has {elements} elements; workspace capacity is " ++
      s!"{workspace.maxElements}"))
  else if workspace.blockSize ≠ reduction.blockSize then
    .error (.invalidInput
      (s!"workspace block size {workspace.blockSize} does not match reduction " ++
      s!"block size {reduction.blockSize}"))
  else .ok ⟨⟩

/-! ### Sums and maxima -/

/-- Check and submit one pass. -/
def enqueuePass (capacity : Slot → ℕ) (p : Pass) :
    Fallible (LaunchQueue NnisError StreamWork) NnisError PUnit := do
  let outputElements ← Fallible.ofExcept (partialCount reduction.blockSize p.elements)
  if outputElements = 0 ∨ capacity p.destination < outputElements then
    Fallible.fail (.invalidInput (s!"reduction pass needs {outputElements} output elements; " ++
      s!"allocation has {capacity p.destination}"))
  else if u32Limit ≤ outputElements then
    Fallible.fail (.invalidInput "reduction grid exceeds u32::MAX blocks")
  else if u32Limit ≤ reduction.blockSize * 4 then
    Fallible.fail (.invalidInput "reduction shared-memory size overflows")
  else LaunchQueue.submit (.launch outputElements reduction.blockSize (reduction.blockSize * 4))

/-- The message of a loop that would need more rounds than there are elements. -/
def unfinished : NnisError := .invalidInput "unfinished"

/-- The buffers of a reduction, and the stream of its launches. -/
abbrev ReductionDevice (α : Type) := Device α (LaunchQueue NnisError StreamWork)

/-- Reduce the input to one element of the output. An empty input leaves zero for a sum and the old
output for a maximum. -/
def enqueueTree (combine : F32 → F32 → F32) (empty : F32) (kind : TreeKind)
    (workspace : ReductionWorkspace) : Fallible (ReductionDevice F32) NnisError PUnit := do
  let device ← Fallible.get
  let capacity slot := (device.buffer slot).length
  if capacity .output ≠ 1 then
    Fallible.fail (.invalidInput s!"reduction output has {capacity .output} elements; expected 1")
  else do
    Fallible.ofExcept (reduction.validateExecution "reduction" (capacity .input) workspace)
    if capacity .input = 0 then
      match kind with
      | .sum => do
        (LaunchQueue.submit (.memset 4)).zoom Device.stream Device.withStream
        Fallible.modify fun device => { device with
          buffer := Function.update device.buffer .output
            (TreePasses.overwrite (device.buffer .output) [.zero false]) }
      | .max => pure ⟨⟩
    else
      TreePasses.run combine empty reduction.blockSize (partialCount reduction.blockSize)
        (reduction.enqueuePass capacity) unfinished (capacity .input)

/-- The sum, from `0.0f`. -/
def enqueueSum (math : ReductionMath) (workspace : ReductionWorkspace) :
    Fallible (ReductionDevice F32) NnisError PUnit :=
  reduction.enqueueTree math.add (.zero false) .sum workspace

/-- The maximum, from negative infinity. -/
def enqueueMax (math : ReductionMath) (workspace : ReductionWorkspace) :
    Fallible (ReductionDevice F32) NnisError PUnit :=
  reduction.enqueueTree math.fmaxf (.infinite true) .max workspace

end F32Reduction

/-! ### Ranked pairs -/

/-- What is read from a list of numbers is a number, also beyond its end. -/
theorem getD_isNaN {l : List F32} (hnumber : ∀ x ∈ l, x.isNaN = false) (i : ℕ) :
    (l.getD i (.zero false)).isNaN = false := by
  rcases Nat.lt_or_ge i l.length with hi | hi
  · rw [List.getD_eq_getElem _ _ hi]
    exact hnumber _ (List.getElem_mem hi)
  · rw [List.getD_eq_default _ _ hi]
    rfl

/-- Of two values with an index, the larger value is ranked before, and the lower index of equal
ones. -/
def PairRanked (value : F32) (index : ℕ) (value' : F32) (index' : ℕ) : Prop :=
  value'.key < value.key ∨ value'.key = value.key ∧ index < index'

/-- Numbers are ranked before negative infinity with a later index. -/
theorem pairRanked_infinite {x : F32} (hx : x.isNaN = false) {i last : ℕ} (h : i < last) :
    PairRanked x i (.infinite true) last :=
  (Binary.key_infinite_le hx).lt_or_eq.imp id fun heq => ⟨heq, h⟩

/-- A comparison of pairs of a value and an index that prefers what is ranked before. -/
def PrefersRanked {P : Type} (better : P → P → Bool) (value : P → F32) (index : P → ℕ) : Prop :=
  ∀ a b, (value a).isNaN = false → (value b).isNaN = false →
    (better a b = true ↔ PairRanked (value a) (index a) (value b) (index b))

namespace PrefersRanked

variable {P : Type} {better : P → P → Bool} {value : P → F32} {index : P → ℕ}

theorem better_of_ranked (h : PrefersRanked better value index) {winner other : P}
    (hw : (value winner).isNaN = false) (ho : (value other).isNaN = false)
    (hranked : PairRanked (value winner) (index winner) (value other) (index other)) :
    better winner other = true ∧ better other winner = false := by
  refine ⟨(h _ _ hw ho).2 hranked, ?_⟩
  rw [Bool.eq_false_iff, Ne, h _ _ ho hw]
  simp only [PairRanked] at hranked ⊢
  omega

/-- The reduction of the pairs of a list of numbers returns the pair that is ranked before all
others and before what the threads start from. -/
theorem reduce_eq (h : PrefersRanked better value index) {keep : P → P → P} {empty : P}
    (hkeep : ∀ a b, keep a b = if better b a then b else a) {l : List F32} {i : ℕ} {pair : ℕ → P}
    (hnumber : ∀ x ∈ l, x.isNaN = false) (hvalue : ∀ j, value (pair j) = l.getD j (.zero false))
    (hindex : ∀ j < l.length, index (pair j) = j) (hi : i < l.length)
    (hranked : ∀ j < l.length, j ≠ i →
      PairRanked (l.getD i (.zero false)) i (l.getD j (.zero false)) j)
    (hempty : (value empty).isNaN = false)
    (hbefore : PairRanked (l.getD i (.zero false)) i (value empty) (index empty)) (k : ℕ) :
    TreeReduction.reduce keep empty (2 ^ k) ((List.range l.length).map pair) = some (pair i) := by
  have hpair (j : ℕ) : (value (pair j)).isNaN = false := by
    rw [hvalue j]
    exact getD_isNaN hnumber j
  have hbest {other : P} (hother : (value other).isNaN = false)
      (hrank : PairRanked (l.getD i (.zero false)) i (value other) (index other)) :
      better (pair i) other = true ∧ better other (pair i) = false := by
    rw [← hvalue i] at hrank
    nth_rewrite 2 [← hindex i hi] at hrank
    exact h.better_of_ranked (hpair i) hother hrank
  refine TreeReduction.reduce_eq (TreeReduction.absorbs_of_better hkeep (pair i))
    (.inr (hbest hempty hbefore)) k (fun a ha => ?_) (List.mem_map.2 ⟨i, List.mem_range.2 hi, rfl⟩)
  obtain ⟨j, hj, rfl⟩ := List.mem_map.1 ha
  rw [List.mem_range] at hj
  by_cases hji : j = i
  · exact .inl (by rw [hji])
  · refine .inr (hbest (hpair j) ?_)
    rw [hvalue j, hindex j hj]
    exact hranked j hj hji

end PrefersRanked

/-! ### Greatest elements -/

/-- A value and its index. -/
structure Best where
  value : F32
  index : UInt64
  deriving DecidableEq

namespace F32Reduction

variable (reduction : F32Reduction)

/-- The larger value is better, and the lower index of equal ones. -/
def nnisArgmaxBetter (va : F32) (ia : UInt64) (vb : F32) (ib : UInt64) : Bool :=
  vb.lt va || (va.le vb && vb.le va && ia < ib)

/-- What a thread keeps of the pair that it holds and a candidate. -/
def keepBetter (best candidate : Best) : Best :=
  if nnisArgmaxBetter candidate.value candidate.index best.value best.index then candidate else best

/-- What a thread without an element starts from. -/
def noBest : Best := ⟨.infinite true, 0xFFFFFFFFFFFFFFFF⟩

/-- The pairs that the first pass reads. -/
def indexed (input : List F32) : List Best :=
  (List.range input.length).map fun i => ⟨input.getD i (.zero false), UInt64.ofNat i⟩

/-- Check and submit one pass. -/
def enqueueArgmaxPass (p : Pass) : Fallible (LaunchQueue NnisError StreamWork) NnisError PUnit :=
  if u32Limit ≤ p.outputs then
    Fallible.fail (.invalidInput "argmax pass exceeds u32::MAX blocks")
  else LaunchQueue.submit (.launch p.outputs reduction.blockSize (reduction.blockSize * 12))

/-- Reduce the pairs of the input to the best one. A buffer of pairs stands for one of values and
one of indices, and that of the input for its values alone. In shared memory the 64-bit indices of a
block follow its values, so a block of one thread would hold its index at an address that is not
aligned; what such a block does is left open, and the blocks have two threads or more. -/
def enqueueArgmax (_aligned : 1 < reduction.blockSize) (workspace : ReductionWorkspace) :
    Fallible (ReductionDevice Best) NnisError PUnit := do
  let device ← Fallible.get
  let capacity slot := (device.buffer slot).length
  if capacity .output ≠ 1 then
    Fallible.fail (.invalidInput
      s!"argmax outputs have {capacity .output}/{capacity .output} elements; expected 1/1")
  else do
    Fallible.ofExcept (reduction.validateExecution "argmax" (capacity .input) workspace)
    if capacity .input = 0 then Fallible.fail (.invalidInput "argmax of empty input")
    else if u32Limit ≤ reduction.blockSize * 12 then
      Fallible.fail (.invalidInput "argmax shared memory overflows")
    else
      TreePasses.run keepBetter noBest reduction.blockSize (partialCount reduction.blockSize)
        reduction.enqueueArgmaxPass unfinished (capacity .input)

end F32Reduction

end NNIS
