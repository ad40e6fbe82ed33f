import Mathlib.Algebra.Group.Nat.Defs
import NNIS.Parallel.Loop
import NNIS.Parallel.Thread

/-!
# Fused attention kernels

The kernels of `nnis-kernels/src/attention.rs` and `nnis-kernels/src/bf16_attention.rs` that stream
a query row through chunks of keys and values, staged in shared memory. A block owns one query row
of one head. The four kernels share their body; they differ in how values are loaded and stored and
in where the rows of a head begin. Indices are naturals, which admitted shapes keep below 64 bits,
up to the number of a key, which the kernels keep in 32 bits. The results of operations on `float`
values are left open: the exponential of the device is not that of the host, and a compiler may
contract a product and a sum.

## Main definitions

* `FloatOps` — the operations on `float` values.
* `FloatOps.bf16BitsToF32`, `FloatOps.f32ToBf16Bits` — the conversions of `nnis-kernels`.
* `FusedAttention`, `FusedAttention.thread` — the shared body.
* `nnisAttentionFusedF32`, `nnisAttentionFusedMultiheadF32`, `nnisAttentionFusedBf16`,
  `nnisAttentionFusedMultiheadBf16` — the kernels.
-/

set_option autoImplicit false

namespace NNIS

/-- The operations of a device on single precision values. -/
structure FloatOps (F : Type) where
  ofBits : UInt32 → F
  toBits : F → UInt32
  add : F → F → F
  sub : F → F → F
  mul : F → F → F
  div : F → F → F
  fmaf : F → F → F → F
  fmaxf : F → F → F
  expf : F → F

namespace FloatOps

variable {F : Type} (ops : FloatOps F)

/-- The literal `0.0f`. -/
def zero : F := ops.ofBits 0

/-- Negative infinity, by its bits. -/
def nnisNegInf : F := ops.ofBits 0xff800000

/-- Widen a `bf16` value. -/
def bf16BitsToF32 (bits : UInt16) : F := ops.ofBits (bits.toUInt32 <<< 16)

/-- Narrow to a `bf16` value: a value that is not a number is made quiet, any other one is rounded
to the nearest even one. -/
def f32ToBf16Bits (value : F) : UInt16 :=
  let bits := ops.toBits value
  if bits &&& 0x7FFFFFFF > 0x7F800000 then ((bits ||| 0x00400000) >>> 16).toUInt16
  else
    let lsb := (bits >>> 16) &&& 1
    ((bits + (0x7FFF + lsb)) >>> 16).toUInt16

end FloatOps

/-- A cell of the shared memory of a block or of the output. -/
inductive BlockCell
  | shared (index : ℕ)
  | output (index : ℕ)
  deriving DecidableEq

/-- The values of a cell. -/
abbrev BlockCell.Value (F O : Type) : BlockCell → Type
  | .shared _ => F
  | .output _ => O

/-- What a block of a fused kernel computes with: the operations and the conversions, the rows of
its head, the place of its output row, and the shape. -/
structure FusedAttention (F I O : Type) where
  ops : FloatOps F
  widen : I → F
  narrow : F → O
  queries : ℕ → I
  keys : ℕ → I
  values : ℕ → I
  output : ℕ
  row : ℕ
  headDim : ℕ
  kvRows : ℕ
  valueDim : ℕ
  scale : F
  causal : Bool

namespace FusedAttention

variable {F I O : Type} (a : FusedAttention F I O) (threads tid : ℕ)

/-- A thread of a block of a fused kernel. -/
abbrev ThreadM (F O α : Type) := Thread BlockCell (BlockCell.Value F O) α

/-- Read a value of the shared memory. -/
def loadShared (index : ℕ) : ThreadM F O F :=
  @Thread.load BlockCell (BlockCell.Value F O) (.shared index)

/-- Write a value of the shared memory. -/
def storeShared (index : ℕ) (value : F) : ThreadM F O Unit :=
  @Thread.store BlockCell (BlockCell.Value F O) (.shared index) value

/-- Write a value of the output. -/
def storeOutput (index : ℕ) (value : O) : ThreadM F O Unit :=
  @Thread.store BlockCell (BlockCell.Value F O) (.output index) value

/-! ### The shared memory -/

/-- The first tile, of `headDim` values. -/
def qSh : ℕ := 0

/-- The tile of keys. -/
def kTile : ℕ := qSh + a.headDim

/-- The tile of values. -/
def vTile : ℕ := a.kTile + threads * a.headDim

/-- The weights of the threads. -/
def scores : ℕ := a.vTile threads + threads * a.valueDim

/-- The tree of a reduction. -/
def scratch : ℕ := a.scores threads + threads

/-- The accumulators. -/
def acc : ℕ := a.scratch threads + threads

/-! ### The parts of a thread -/

/-- Stage the query row and clear the accumulators. -/
def stageQuery : ThreadM F O Unit := do
  Thread.forEach (strided tid a.headDim threads) fun i =>
    storeShared (qSh + i) (a.widen (a.queries (a.row * a.headDim + i)))
  Thread.forEach (strided tid a.valueDim threads) fun c =>
    storeShared (a.acc threads + c) a.ops.zero

/-- Stage the keys and the values of a chunk. -/
def stageChunk (base : ℕ) : ThreadM F O Unit := do
  Thread.forEach (strided tid (threads * a.headDim) threads) fun idx =>
    let r := idx / a.headDim
    let c := idx % a.headDim
    let global := base + r
    storeShared (a.kTile + idx)
      (if global < a.kvRows then a.widen (a.keys (global * a.headDim + c)) else a.ops.zero)
  Thread.forEach (strided tid (threads * a.valueDim) threads) fun idx =>
    let r := idx / a.valueDim
    let c := idx % a.valueDim
    let global := base + r
    storeShared (a.vTile threads + idx)
      (if global < a.kvRows then a.widen (a.values (global * a.valueDim + c)) else a.ops.zero)

/-- The score of the key of a thread. -/
def score (base : ℕ) : ThreadM F O F :=
  let key := (base + tid) % 2 ^ 32
  if key < a.kvRows ∧ (a.causal = true → key ≤ a.row) then do
    let score ← Thread.fold (List.range a.headDim) a.ops.zero fun score e => do
      let q ← loadShared (qSh + e)
      let k ← loadShared (a.kTile + (tid * a.headDim + e))
      pure (a.ops.fmaf q k score)
    pure (a.ops.mul score a.scale)
  else pure a.ops.nnisNegInf

/-- Publish a value of a thread for the weights and for a reduction. -/
def publish (value : F) : ThreadM F O Unit := do
  storeShared (a.scores threads + tid) value
  storeShared (a.scratch threads + tid) value

/-- A round of a reduction. -/
def combineRound (combine : F → F → F) (stride : ℕ) : ThreadM F O Unit :=
  if tid < stride then do
    let left ← loadShared (a.scratch threads + tid)
    let right ← loadShared (a.scratch threads + (tid + stride))
    storeShared (a.scratch threads + tid) (combine left right)
  else pure ()

/-- Reduce the published values. -/
def reduce (combine : F → F → F) : ThreadM F O Unit :=
  Thread.forEach (halvings (threads / 2)) fun stride => do
    a.combineRound threads tid combine stride
    Thread.barrier

/-- Rescale the accumulators. -/
def rescaleAcc (rescale : F) : ThreadM F O Unit :=
  Thread.forEach (strided tid a.valueDim threads) fun c => do
    let total ← loadShared (a.acc threads + c)
    storeShared (a.acc threads + c) (a.ops.mul total rescale)

/-- Add the weighted values of a chunk to the accumulators. -/
def accumulate : ThreadM F O Unit :=
  Thread.forEach (strided tid a.valueDim threads) fun c => do
    let total ← loadShared (a.acc threads + c)
    let total ← Thread.fold (List.range threads) total fun total t => do
      let weight ← loadShared (a.scores threads + t)
      let value ← loadShared (a.vTile threads + (t * a.valueDim + c))
      pure (a.ops.add total (a.ops.mul weight value))
    storeShared (a.acc threads + c) total

/-- One chunk, with the running maximum and the running sum. -/
def chunk (running : F × F) (base : ℕ) : ThreadM F O (F × F) := do
  let (runningMax, runningSum) := running
  a.stageChunk threads tid base
  Thread.barrier
  let score ← a.score tid base
  a.publish threads tid score
  Thread.barrier
  a.reduce threads tid a.ops.fmaxf
  -- No barrier stands between this read and the write of the same cell by the first thread.
  let newMax := a.ops.fmaxf runningMax (← loadShared (a.scratch threads))
  let rescale := a.ops.expf (a.ops.sub runningMax newMax)
  let weight := a.ops.expf (a.ops.sub score newMax)
  a.publish threads tid weight
  Thread.barrier
  a.reduce threads tid a.ops.add
  let runningSum := a.ops.add (a.ops.mul runningSum rescale) (← loadShared (a.scratch threads))
  a.rescaleAcc threads tid rescale
  Thread.barrier
  a.accumulate threads tid
  Thread.barrier
  pure (newMax, runningSum)

/-- Store the output row. -/
def storeRow (runningSum : F) : ThreadM F O Unit :=
  Thread.forEach (strided tid a.valueDim threads) fun c => do
    let total ← loadShared (a.acc threads + c)
    storeOutput (a.output + a.row * a.valueDim + c) (a.narrow (a.ops.div total runningSum))

/-- A thread of the block. -/
def thread : ThreadM F O Unit := do
  a.stageQuery threads tid
  let running ← Thread.fold (strided 0 a.kvRows threads) (a.ops.nnisNegInf, a.ops.zero)
    (a.chunk threads tid)
  a.storeRow threads tid running.2

/-- The block, over what its memory held before. -/
def block (memory : (c : BlockCell) → BlockCell.Value F O c) :
    Block BlockCell (BlockCell.Value F O) Unit where
  thread := a.thread threads
  memory := memory

end FusedAttention

/-! ### The kernels -/

variable {F : Type}

/-- The shape of a launch. -/
structure AttentionShape where
  queryRows : ℕ
  headDim : ℕ
  kvRows : ℕ
  valueDim : ℕ

/-- The block of `nnis_attention_fused_f32` for a query row. -/
def nnisAttentionFusedF32 (ops : FloatOps F) (queries keys values : ℕ → F) (shape : AttentionShape)
    (scale : F) (causal : Bool) (blockIdx : ℕ) : FusedAttention F F F where
  ops := ops
  widen := id
  narrow := id
  queries := queries
  keys := keys
  values := values
  output := 0
  row := blockIdx
  headDim := shape.headDim
  kvRows := shape.kvRows
  valueDim := shape.valueDim
  scale := scale
  causal := causal

/-- The block of `nnis_attention_fused_multihead_f32` for a query row of a head. -/
def nnisAttentionFusedMultiheadF32 (ops : FloatOps F) (queries keys values : ℕ → F)
    (shape : AttentionShape) (scale : F) (causal : Bool) (blockIdx : ℕ) : FusedAttention F F F :=
  let row := blockIdx % shape.queryRows
  let head := blockIdx / shape.queryRows
  { ops := ops
    widen := id
    narrow := id
    queries := fun i => queries (head * shape.queryRows * shape.headDim + i)
    keys := fun i => keys (head * shape.kvRows * shape.headDim + i)
    values := fun i => values (head * shape.kvRows * shape.valueDim + i)
    output := head * shape.queryRows * shape.valueDim
    row := row
    headDim := shape.headDim
    kvRows := shape.kvRows
    valueDim := shape.valueDim
    scale := scale
    causal := causal }

/-- The block of `nnis_attention_fused_bf16` for a query row. -/
def nnisAttentionFusedBf16 (ops : FloatOps F) (queries keys values : ℕ → UInt16)
    (shape : AttentionShape) (scale : F) (causal : Bool) (blockIdx : ℕ) :
    FusedAttention F UInt16 UInt16 where
  ops := ops
  widen := ops.bf16BitsToF32
  narrow := ops.f32ToBf16Bits
  queries := queries
  keys := keys
  values := values
  output := 0
  row := blockIdx
  headDim := shape.headDim
  kvRows := shape.kvRows
  valueDim := shape.valueDim
  scale := scale
  causal := causal

/-- The block of `nnis_attention_fused_multihead_bf16` for a query row of a head. -/
def nnisAttentionFusedMultiheadBf16 (ops : FloatOps F) (queries keys values : ℕ → UInt16)
    (shape : AttentionShape) (scale : F) (causal : Bool) (blockIdx : ℕ) :
    FusedAttention F UInt16 UInt16 :=
  let row := blockIdx % shape.queryRows
  let head := blockIdx / shape.queryRows
  { ops := ops
    widen := ops.bf16BitsToF32
    narrow := ops.f32ToBf16Bits
    queries := fun i => queries (head * shape.queryRows * shape.headDim + i)
    keys := fun i => keys (head * shape.kvRows * shape.headDim + i)
    values := fun i => values (head * shape.kvRows * shape.valueDim + i)
    output := head * shape.queryRows * shape.valueDim
    row := row
    headDim := shape.headDim
    kvRows := shape.kvRows
    valueDim := shape.valueDim
    scale := scale
    causal := causal }

end NNIS
