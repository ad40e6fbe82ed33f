import NNIS.Kernels.FusedAttentionPlan
import NNIS.Parallel.SharedLayout

/-!
# The regions of the fused attention kernels

The threads of a fused attention kernel over the regions of their shared memory, where an index is
one of its region, as the kernels write it: `k_tile[idx]`. With each region at its place these are
the threads over one array, and every index stays in its region.

## Main definitions

* `AttentionRegion`, `FusedAttention.region` — the regions and their bytes.
* `FusedAttention.Regional.thread` — a thread over the regions.

## Main results

* `FusedAttention.Regional.relabel_thread` — the threads over one array.
* `FusedAttention.Regional.touches_thread` — every index stays in its region.
-/

set_option autoImplicit false

namespace NNIS

/-- The regions of the shared memory of a block. -/
inductive AttentionRegion
  | qSh | kTile | vTile | scores | scratch | acc

namespace FusedAttention

variable {F I O : Type} (a : FusedAttention F I O) (threads tid : ℕ)

/-- The element of the array at which a region begins. -/
def place : AttentionRegion → ℕ
  | .qSh => qSh
  | .kTile => a.kTile
  | .vTile => a.vTile threads
  | .scores => a.scores threads
  | .scratch => a.scratch threads
  | .acc => a.acc threads

/-- The number of elements of a region. -/
def extent : AttentionRegion → ℕ
  | .qSh => a.headDim
  | .kTile => threads * a.headDim
  | .vTile => threads * a.valueDim
  | .scores => threads
  | .scratch => threads
  | .acc => a.valueDim

/-- A region of `float` elements. -/
def region (r : AttentionRegion) : SharedRegion := ⟨4 * a.place threads r, 4, a.extent threads r⟩

/-- The cell of the one array. -/
def flat : RegionCell AttentionRegion ℕ → BlockCell
  | .shared r i => .shared (a.place threads r + i)
  | .global i => .output i

namespace Regional

/-- A thread over the regions. -/
abbrev RegionM (α : Type) :=
  Thread (RegionCell AttentionRegion ℕ) (fun c => BlockCell.Value F O (a.flat threads c)) α

/-- Read an element of a region. -/
def load (r : AttentionRegion) (index : ℕ) : RegionM a threads F :=
  @Thread.load _ (fun c => BlockCell.Value F O (a.flat threads c)) (.shared r index)

/-- Write an element of a region. -/
def store (r : AttentionRegion) (index : ℕ) (value : F) : RegionM a threads Unit :=
  @Thread.store _ (fun c => BlockCell.Value F O (a.flat threads c)) (.shared r index) value

/-- Write a value of the output. -/
def storeOutput (index : ℕ) (value : O) : RegionM a threads Unit :=
  @Thread.store _ (fun c => BlockCell.Value F O (a.flat threads c)) (.global index) value

/-! ### The parts of a thread -/

/-- Stage the query row and clear the accumulators. -/
def stageQuery : RegionM a threads Unit := do
  Thread.forEach (strided tid a.headDim threads) fun i =>
    store a threads .qSh i (a.widen (a.queries (a.row * a.headDim + i)))
  Thread.forEach (strided tid a.valueDim threads) fun c =>
    store a threads .acc c a.ops.zero

/-- Stage the keys and the values of a chunk. -/
def stageChunk (base : ℕ) : RegionM a threads Unit := do
  Thread.forEach (strided tid (threads * a.headDim) threads) fun idx =>
    let r := idx / a.headDim
    let c := idx % a.headDim
    let global := base + r
    store a threads .kTile idx
      (if global < a.kvRows then a.widen (a.keys (global * a.headDim + c)) else a.ops.zero)
  Thread.forEach (strided tid (threads * a.valueDim) threads) fun idx =>
    let r := idx / a.valueDim
    let c := idx % a.valueDim
    let global := base + r
    store a threads .vTile idx
      (if global < a.kvRows then a.widen (a.values (global * a.valueDim + c)) else a.ops.zero)

/-- The score of the key of a thread. -/
def score (base : ℕ) : RegionM a threads F :=
  let key := (base + tid) % 2 ^ 32
  if key < a.kvRows ∧ (a.causal = true → key ≤ a.row) then do
    let score ← Thread.fold (List.range a.headDim) a.ops.zero fun score e => do
      let q ← load a threads .qSh e
      let k ← load a threads .kTile (tid * a.headDim + e)
      pure (a.ops.fmaf q k score)
    pure (a.ops.mul score a.scale)
  else pure a.ops.nnisNegInf

/-- Publish a value of a thread for the weights and for a reduction. -/
def publish (value : F) : RegionM a threads Unit := do
  store a threads .scores tid value
  store a threads .scratch tid value

/-- A round of a reduction. -/
def combineRound (combine : F → F → F) (stride : ℕ) : RegionM a threads Unit :=
  if tid < stride then do
    let left ← load a threads .scratch tid
    let right ← load a threads .scratch (tid + stride)
    store a threads .scratch tid (combine left right)
  else pure ()

/-- Reduce the published values. -/
def reduce (combine : F → F → F) : RegionM a threads Unit :=
  Thread.forEach (halvings (threads / 2)) fun stride => do
    combineRound a threads tid combine stride
    Thread.barrier

/-- Rescale the accumulators. -/
def rescaleAcc (rescale : F) : RegionM a threads Unit :=
  Thread.forEach (strided tid a.valueDim threads) fun c => do
    let total ← load a threads .acc c
    store a threads .acc c (a.ops.mul total rescale)

/-- Add the weighted values of a chunk to the accumulators. -/
def accumulate : RegionM a threads Unit :=
  Thread.forEach (strided tid a.valueDim threads) fun c => do
    let total ← load a threads .acc c
    let total ← Thread.fold (List.range threads) total fun total t => do
      let weight ← load a threads .scores t
      let value ← load a threads .vTile (t * a.valueDim + c)
      pure (a.ops.add total (a.ops.mul weight value))
    store a threads .acc c total

/-- One chunk, with the running maximum and the running sum. -/
def chunk (running : F × F) (base : ℕ) : RegionM a threads (F × F) := do
  let (runningMax, runningSum) := running
  stageChunk a threads tid base
  Thread.barrier
  let score ← score a threads tid base
  publish a threads tid score
  Thread.barrier
  reduce a threads tid a.ops.fmaxf
  let newMax := a.ops.fmaxf runningMax (← load a threads .scratch 0)
  let rescale := a.ops.expf (a.ops.sub runningMax newMax)
  let weight := a.ops.expf (a.ops.sub score newMax)
  publish a threads tid weight
  Thread.barrier
  reduce a threads tid a.ops.add
  let runningSum := a.ops.add (a.ops.mul runningSum rescale) (← load a threads .scratch 0)
  rescaleAcc a threads tid rescale
  Thread.barrier
  accumulate a threads tid
  Thread.barrier
  pure (newMax, runningSum)

/-- Store the output row. -/
def storeRow (runningSum : F) : RegionM a threads Unit :=
  Thread.forEach (strided tid a.valueDim threads) fun c => do
    let total ← load a threads .acc c
    storeOutput a threads (a.output + a.row * a.valueDim + c)
      (a.narrow (a.ops.div total runningSum))

/-- A thread of the block. -/
def thread : RegionM a threads Unit := do
  stageQuery a threads tid
  let running ← Thread.fold (strided 0 a.kvRows threads) (a.ops.nnisNegInf, a.ops.zero)
    (chunk a threads tid)
  storeRow a threads tid running.2

/-! ### The threads over one array -/

open Thread

private theorem relabel_stageQuery :
    (stageQuery a threads tid).relabel (a.flat threads) = a.stageQuery threads tid := by
  simp only [stageQuery, relabel_bind, relabel_forEach]
  rfl

private theorem relabel_stageChunk (base : ℕ) :
    (stageChunk a threads tid base).relabel (a.flat threads) = a.stageChunk threads tid base := by
  simp only [stageChunk, relabel_bind, relabel_forEach]
  rfl

private theorem relabel_score (base : ℕ) :
    (score a threads tid base).relabel (a.flat threads) = a.score tid base := by
  simp only [score, relabel_ite, relabel_bind, relabel_fold]
  rfl

private theorem relabel_publish (value : F) :
    (publish a threads tid value).relabel (a.flat threads) = a.publish threads tid value := rfl

private theorem relabel_reduce (combine : F → F → F) :
    (reduce a threads tid combine).relabel (a.flat threads) = a.reduce threads tid combine := by
  simp only [reduce, combineRound, relabel_forEach, relabel_bind, relabel_ite]
  rfl

private theorem relabel_rescaleAcc (rescale : F) :
    (rescaleAcc a threads tid rescale).relabel (a.flat threads) =
      a.rescaleAcc threads tid rescale := by
  simp only [rescaleAcc, relabel_forEach]
  rfl

private theorem relabel_accumulate :
    (accumulate a threads tid).relabel (a.flat threads) = a.accumulate threads tid := by
  simp only [accumulate, relabel_forEach, relabel_bind, relabel_fold]
  rfl

private theorem relabel_load (r : AttentionRegion) (index : ℕ) :
    (load a threads r index).relabel (a.flat threads) =
      (loadShared (a.place threads r + index) : ThreadM F O F) := rfl

private theorem relabel_barrier :
    (barrier : RegionM a threads Unit).relabel (a.flat threads) =
    (barrier : ThreadM F O Unit) := rfl

private theorem relabel_chunk (running : F × F) (base : ℕ) :
    (chunk a threads tid running base).relabel (a.flat threads) =
      a.chunk threads tid running base := by
  simp only [chunk, relabel_bind, relabel_stageChunk, relabel_score, relabel_publish,
    relabel_reduce, relabel_rescaleAcc, relabel_accumulate, relabel_barrier, relabel_load]
  rfl

private theorem relabel_storeRow (runningSum : F) :
    (storeRow a threads tid runningSum).relabel (a.flat threads) =
      a.storeRow threads tid runningSum := by
  simp only [storeRow, relabel_forEach, relabel_bind]
  rfl

/-- With the regions at their places, a thread is one over the array. -/
theorem relabel_thread :
    (thread a threads tid).relabel (a.flat threads) = a.thread threads tid := by
  simp only [thread, relabel_bind, relabel_fold, relabel_stageQuery, relabel_chunk,
    relabel_storeRow]
  rfl

/-! ### The indices of a thread -/

section Indices

variable {a threads tid}

/-- An index stays in its region. -/
private def Inside (a : FusedAttention F I O) (threads : ℕ)
    (access : Access (RegionCell AttentionRegion ℕ)) : Prop :=
  access.target.Inside (a.region threads)

private theorem touches_load {r : AttentionRegion} {index : ℕ} (h : index < a.extent threads r) :
    (load a threads r index).Touches (Inside a threads) :=
  ⟨h, fun _ => trivial⟩

private theorem touches_store {r : AttentionRegion} {index : ℕ} {value : F}
    (h : index < a.extent threads r) :
    (store a threads r index value).Touches (Inside a threads) :=
  ⟨h, trivial⟩

variable (ht : tid < threads)

include ht

private theorem touches_stageQuery : (stageQuery a threads tid).Touches (Inside a threads) := by
  refine Touches.bind (Touches.forEach fun i hi => ?_) fun _ => Touches.forEach fun c hc => ?_
  · exact touches_store ((mem_strided ht).1 hi).1
  · exact touches_store ((mem_strided ht).1 hc).1

private theorem touches_stageChunk (base : ℕ) :
    (stageChunk a threads tid base).Touches (Inside a threads) := by
  refine Touches.bind (Touches.forEach fun i hi => ?_) fun _ => Touches.forEach fun c hc => ?_
  · exact touches_store ((mem_strided ht).1 hi).1
  · exact touches_store ((mem_strided ht).1 hc).1

private theorem touches_score (base : ℕ) :
    (score a threads tid base).Touches (Inside a threads) := by
  refine Touches.ite (fun _ => Touches.bind (Touches.fold fun _ e he => ?_) fun _ => trivial)
    fun _ => trivial
  have he' : e < a.headDim := List.mem_range.1 he
  exact Touches.bind (touches_load he') fun _ =>
    Touches.bind (touches_load (mul_add_lt ht he')) fun _ => trivial

private theorem touches_publish (value : F) :
    (publish a threads tid value).Touches (Inside a threads) :=
  Touches.bind (touches_store ht) fun _ => touches_store ht

private theorem touches_reduce (combine : F → F → F) :
    (reduce a threads tid combine).Touches (Inside a threads) := by
  refine Touches.forEach fun stride hstride => Touches.bind (Touches.ite (fun hlt => ?_) fun _ =>
    trivial) fun _ => trivial
  have hle : stride ≤ threads / 2 := le_of_mem_halvings hstride
  have hright : tid + stride < threads := by omega
  exact Touches.bind (touches_load ht) fun _ => Touches.bind (touches_load hright) fun _ =>
    touches_store ht

private theorem touches_rescaleAcc (rescale : F) :
    (rescaleAcc a threads tid rescale).Touches (Inside a threads) := by
  refine Touches.forEach fun c hc => ?_
  have hlt : c < a.valueDim := ((mem_strided ht).1 hc).1
  exact Touches.bind (touches_load hlt) fun _ => touches_store hlt

private theorem touches_accumulate : (accumulate a threads tid).Touches (Inside a threads) := by
  refine Touches.forEach fun c hc => ?_
  have hlt : c < a.valueDim := ((mem_strided ht).1 hc).1
  refine Touches.bind (touches_load hlt) fun _ => Touches.bind (Touches.fold fun _ t hmem => ?_)
    fun _ => touches_store hlt
  have hthread : t < threads := List.mem_range.1 hmem
  exact Touches.bind (touches_load hthread) fun _ =>
    Touches.bind (touches_load (mul_add_lt hthread hlt)) fun _ => trivial

private theorem touches_chunk (running : F × F) (base : ℕ) :
    (chunk a threads tid running base).Touches (Inside a threads) := by
  have hfirst : 0 < threads := Nat.zero_lt_of_lt ht
  refine Touches.bind (touches_stageChunk ht base) fun _ => Touches.barrier_bind ?_
  refine Touches.bind (touches_score ht base) fun _ => ?_
  refine Touches.bind (touches_publish ht _) fun _ => Touches.barrier_bind ?_
  refine Touches.bind (touches_reduce ht _) fun _ => Touches.bind (touches_load hfirst) fun _ => ?_
  refine Touches.bind (touches_publish ht _) fun _ => Touches.barrier_bind ?_
  refine Touches.bind (touches_reduce ht _) fun _ => Touches.bind (touches_load hfirst) fun _ => ?_
  refine Touches.bind (touches_rescaleAcc ht _) fun _ => Touches.barrier_bind ?_
  exact Touches.bind (touches_accumulate ht) fun _ => trivial

private theorem touches_storeRow (runningSum : F) :
    (storeRow a threads tid runningSum).Touches (Inside a threads) := by
  refine Touches.forEach fun c hc => ?_
  exact Touches.bind (touches_load ((mem_strided ht).1 hc).1) fun _ => ⟨trivial, trivial⟩

/-- Every index of a thread stays in its region. -/
theorem touches_thread :
    (thread a threads tid).Touches fun access => access.target.Inside (a.region threads) :=
  Touches.bind (touches_stageQuery ht) fun _ =>
    Touches.bind (Touches.fold fun running base _ => touches_chunk ht running base) fun running =>
      touches_storeRow ht running.2

end Indices

end Regional

end FusedAttention

end NNIS
