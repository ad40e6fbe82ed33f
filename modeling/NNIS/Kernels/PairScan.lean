import NNIS.Kernels.TopK
import NNIS.Parallel.SharedLayout

/-!
# The kernels that select pairs

The argmax kernels of `nnis-kernels/src/reduction.rs` and `nnis-kernels/src/top_k.rs`. A block keeps
the better one of two pairs of a value and an index for each of its threads, in two regions of its
shared memory, and combines the pairs along the halving tree. The values are laid out before the
indices. Indices are naturals, which stay below 64 bits.

## Main definitions

* `PairRegion`, `pairRegion` — the regions and their bytes.
* `nnisReduceArgmaxFirstF32`, `nnisReduceArgmaxPairsF32`, `nnisTopkArgmaxFirstF32`,
  `nnisTopkArgmaxPairF32` — the kernels.

## Main results

* `pairLayout_matches_iff` — the layout matches when the indices begin at a multiple of their size.
-/

set_option autoImplicit false

namespace NNIS

/-- The regions of the shared memory of a block. -/
inductive PairRegion
  | partialValue | partialIndex

/-- The outputs of the blocks. -/
inductive PairOutput
  | values (block : ℕ)
  | indices (block : ℕ)

/-- The values of a cell, for indices of a type. -/
abbrev PairValue (I : Type) : RegionCell PairRegion PairOutput → Type
  | .shared .partialValue _ => F32
  | .shared .partialIndex _ => I
  | .global (.values _) => F32
  | .global (.indices _) => I

/-- A thread that selects pairs. -/
abbrev PairThread (I α : Type) := Thread (RegionCell PairRegion PairOutput) (PairValue I) α

/-- The regions of a block of some threads, for indices of a number of bytes. -/
def pairRegion (indexSize blockDim : ℕ) : PairRegion → SharedRegion
  | .partialValue => ⟨0, 4, blockDim⟩
  | .partialIndex => ⟨4 * blockDim, indexSize, blockDim⟩

namespace PairThread

variable {I : Type}

/-- `partial_value[lane]` -/
def loadValue (lane : ℕ) : PairThread I F32 :=
  @Thread.load _ (PairValue I) (.shared .partialValue lane)

/-- `partial_index[lane]` -/
def loadIndex (lane : ℕ) : PairThread I I :=
  @Thread.load _ (PairValue I) (.shared .partialIndex lane)

/-- Write a pair of a thread. -/
def storePair (lane : ℕ) (value : F32) (index : I) : PairThread I Unit := do
  @Thread.store _ (PairValue I) (.shared .partialValue lane) value
  @Thread.store _ (PairValue I) (.shared .partialIndex lane) index

/-- Publish the pair of a thread, combine the published pairs and store the last one. -/
def scan (round : (stride lane : ℕ) → PairThread I Unit) (blockDim blockIdx lane : ℕ) (value : F32)
    (index : I) : PairThread I Unit := do
  storePair lane value index
  Thread.barrier
  Thread.forEach (halvings (blockDim / 2)) fun stride => do
    round stride lane
    Thread.barrier
  if lane = 0 then do
    let value ← loadValue 0
    @Thread.store _ (PairValue I) (.global (.values blockIdx)) value
    let index ← loadIndex 0
    @Thread.store _ (PairValue I) (.global (.indices blockIdx)) index
  else pure ()

end PairThread

/-- The pair of a thread: the better one of the two that it reads. -/
def startPair {P : Type} (keep : P → P → P) (empty : P) (element : ℕ → P)
    (elements blockDim blockIdx lane : ℕ) : P :=
  let first := blockIdx * blockDim * 2 + lane
  let second := first + blockDim
  let best := if first < elements then element first else empty
  if second < elements then keep best (element second) else best

/-! ### The argmax kernels -/

section Argmax

open PairThread

/-- A round of the argmax kernels. -/
def argmaxRound (stride lane : ℕ) : PairThread UInt64 Unit :=
  if lane < stride then do
    let candidate ← loadValue (lane + stride)
    let candidateIndex ← loadIndex (lane + stride)
    let value ← loadValue lane
    let index ← loadIndex lane
    if F32Reduction.nnisArgmaxBetter candidate candidateIndex value index then do
      let value ← loadValue (lane + stride)
      let index ← loadIndex (lane + stride)
      storePair lane value index
    else pure ()
  else pure ()

variable (elements blockDim blockIdx lane : ℕ)

/-- An argmax kernel over pairs. -/
def argmaxThread (element : ℕ → Best) : PairThread UInt64 Unit :=
  let best :=
    startPair F32Reduction.keepBetter F32Reduction.noBest element elements blockDim blockIdx lane
  scan argmaxRound blockDim blockIdx lane best.value best.index

/-- `nnis_reduce_argmax_first_f32` -/
def nnisReduceArgmaxFirstF32 (input : ℕ → F32) : PairThread UInt64 Unit :=
  argmaxThread elements blockDim blockIdx lane fun i => ⟨input i, UInt64.ofNat i⟩

/-- `nnis_reduce_argmax_pairs_f32` -/
def nnisReduceArgmaxPairsF32 (inputValues : ℕ → F32) (inputIndices : ℕ → UInt64) :
    PairThread UInt64 Unit :=
  argmaxThread elements blockDim blockIdx lane fun i => ⟨inputValues i, inputIndices i⟩

end Argmax

/-! ### The kernels of the selector -/

section TopK

open PairThread

/-- The comparison of a candidate with the pair of a thread, whose index is read only when the
values are equal. -/
def topkBetter (lane : ℕ) (candidate : F32) (candidateIndex : UInt32) : PairThread UInt32 Bool := do
  let value ← loadValue lane
  if value.lt candidate then pure true
  else do
    let value ← loadValue lane
    if candidate.le value && value.le candidate then do
      let index ← loadIndex lane
      pure (decide (candidateIndex < index))
    else pure false

/-- A round of the kernels of the selector. -/
def topkRound (stride lane : ℕ) : PairThread UInt32 Unit :=
  if lane < stride then do
    let candidate ← loadValue (lane + stride)
    let candidateIndex ← loadIndex (lane + stride)
    let better ← topkBetter lane candidate candidateIndex
    if better then storePair lane candidate candidateIndex else pure ()
  else pure ()

variable (elements blockDim blockIdx lane : ℕ)

/-- A kernel of the selector over pairs. -/
def topkThread (element : ℕ → Scored) : PairThread UInt32 Unit :=
  let best := startPair F32TopK.prefer F32TopK.sentinel element elements blockDim blockIdx lane
  scan topkRound blockDim blockIdx lane best.value best.index

/-- `nnis_topk_argmax_first_f32` -/
def nnisTopkArgmaxFirstF32 (input : ℕ → F32) : PairThread UInt32 Unit :=
  topkThread elements blockDim blockIdx lane fun i => ⟨input i, UInt32.ofNat i⟩

/-- `nnis_topk_argmax_pair_f32` -/
def nnisTopkArgmaxPairF32 (inValue : ℕ → F32) (inIndex : ℕ → UInt32) : PairThread UInt32 Unit :=
  topkThread elements blockDim blockIdx lane fun i => ⟨inValue i, inIndex i⟩

end TopK

/-! ### The indices of a thread -/

namespace PairThread

variable {I : Type} {indexSize blockDim lane : ℕ}

/-- An index stays in its region. -/
abbrev Inside (indexSize blockDim : ℕ) (access : Access (RegionCell PairRegion PairOutput)) :
    Prop :=
  access.target.Inside (pairRegion indexSize blockDim)

private theorem touches_loadValue (h : lane < blockDim) :
    (loadValue lane : PairThread I F32).Touches (Inside indexSize blockDim) :=
  ⟨h, fun _ => trivial⟩

private theorem touches_loadIndex (h : lane < blockDim) :
    (loadIndex lane : PairThread I I).Touches (Inside indexSize blockDim) :=
  ⟨h, fun _ => trivial⟩

private theorem touches_storePair (h : lane < blockDim) {value : F32} {index : I} :
    (storePair lane value index).Touches (Inside indexSize blockDim) :=
  ⟨h, h, trivial⟩

private theorem touches_scan {round : (stride lane : ℕ) → PairThread I Unit} {blockIdx : ℕ}
    {value : F32} {index : I} (h : lane < blockDim)
    (hround : ∀ stride, (lane < stride → lane + stride < blockDim) →
      (round stride lane).Touches (Inside indexSize blockDim)) :
    (scan round blockDim blockIdx lane value index).Touches (Inside indexSize blockDim) := by
  have hfirst : 0 < blockDim := Nat.zero_lt_of_lt h
  refine .bind (touches_storePair h) fun _ =>
    .barrier_bind (.bind (.forEach fun stride hstride => ?_)
    fun _ => .ite (fun _ => ?_) fun _ => trivial)
  · have hle : stride ≤ blockDim / 2 := le_of_mem_halvings hstride
    exact .bind (hround stride fun hlt => by omega) fun _ => trivial
  · exact .bind (touches_loadValue hfirst) fun _ =>
      ⟨trivial, hfirst, fun _ => ⟨trivial, trivial⟩⟩

private theorem touches_argmaxRound {stride : ℕ} (h : lane < blockDim)
    (hright : lane < stride → lane + stride < blockDim) :
    (argmaxRound stride lane).Touches (Inside indexSize blockDim) := by
  refine .ite (fun hlt => ?_) fun _ => trivial
  have hright' := hright hlt
  refine .bind (touches_loadValue hright') fun _ => .bind (touches_loadIndex hright') fun _ => ?_
  refine .bind (touches_loadValue h) fun _ => .bind (touches_loadIndex h) fun _ => ?_
  refine .ite (fun _ => ?_) fun _ => trivial
  exact .bind (touches_loadValue hright') fun _ => .bind (touches_loadIndex hright') fun _ =>
    touches_storePair h

private theorem touches_topkBetter {candidate : F32} {candidateIndex : UInt32}
    (h : lane < blockDim) :
    (topkBetter lane candidate candidateIndex).Touches (Inside indexSize blockDim) := by
  refine .bind (touches_loadValue h) fun _ => .ite (fun _ => trivial) fun _ => ?_
  refine .bind (touches_loadValue h) fun _ => .ite (fun _ => ?_) fun _ => trivial
  exact .bind (touches_loadIndex h) fun _ => trivial

private theorem touches_topkRound {stride : ℕ} (h : lane < blockDim)
    (hright : lane < stride → lane + stride < blockDim) :
    (topkRound stride lane).Touches (Inside indexSize blockDim) := by
  refine .ite (fun hlt => ?_) fun _ => trivial
  have hright' := hright hlt
  refine .bind (touches_loadValue hright') fun _ => .bind (touches_loadIndex hright') fun _ => ?_
  exact .bind (touches_topkBetter h) fun _ => .ite (fun _ => touches_storePair h) fun _ => trivial

/-- Every index of an argmax kernel stays in its region. -/
theorem touches_argmaxThread {elements blockIdx : ℕ} {element : ℕ → Best} (h : lane < blockDim) :
    (argmaxThread elements blockDim blockIdx lane element).Touches (Inside indexSize blockDim) :=
  touches_scan h fun _ => touches_argmaxRound h

/-- Every index of a kernel of the selector stays in its region. -/
theorem touches_topkThread {elements blockIdx : ℕ} {element : ℕ → Scored} (h : lane < blockDim) :
    (topkThread elements blockDim blockIdx lane element).Touches (Inside indexSize blockDim) :=
  touches_scan h fun _ => touches_topkRound h

end PairThread

/-! ### The layout -/

/-- The regions lie one after the other, so the layout matches when the indices begin at a multiple
of their size. -/
theorem pairLayout_matches_iff {I : Type} {indexSize blockDim : ℕ} {thread : ℕ → PairThread I Unit}
    (hsize : indexSize ∣ 16)
    (hinside : ∀ lane < blockDim, (thread lane).Touches (PairThread.Inside indexSize blockDim)) :
    LayoutMatches (pairRegion indexSize blockDim) (blockDim * (4 + indexSize)) blockDim thread ↔
      indexSize ∣ 4 * blockDim := by
  constructor
  · intro h
    have haligned := h.aligned 0 (Nat.dvd_zero 16) .partialIndex
    rwa [Nat.zero_add] at haligned
  · intro h
    have hpacked : Packed (pairRegion indexSize blockDim) 0 [.partialValue, .partialIndex]
        (blockDim * (4 + indexSize)) := by
      refine ⟨le_rfl, Nat.zero_add _ |>.le, ?_⟩
      change 4 * blockDim + indexSize * blockDim ≤ _
      rw [← Nat.add_mul, Nat.mul_comm]
    refine .of_packed _ (fun r => ?_) hpacked hinside fun r => ?_
    · cases r
      · exact List.mem_cons_self
      · exact List.mem_cons_of_mem _ List.mem_cons_self
    · cases r
      · exact ⟨⟨4, rfl⟩, Nat.dvd_zero 4⟩
      · exact ⟨hsize, h⟩

end NNIS
