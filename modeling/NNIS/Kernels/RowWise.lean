import NNIS.Kernels.Reduction
import NNIS.Parallel.BlockReduce
import NNIS.Parallel.Launch

/-!
# Row softmax, layer norm and RMS norm

The row-wise operators of `nnis-kernels/src/row_softmax.rs`, `layernorm.rs` and `rms_norm.rs`. Each
has a fused kernel, in which a block stages one row in shared memory, and a pipeline of kernels that
keep the scalars of the rows in buffers of their own. Pointer arguments are buffers, so that the
input and the output may be one. Indices are naturals, which admitted shapes keep below 64 bits.

## Main definitions

* `RowMath`, `RowBuffer`, `RowCell` — the operations and the memory.
* `nnisSoftmaxRowFusedF32`, `nnisLayernormRowFusedF32`, `nnisRmsnormRowFusedF32` and the kernels of
  the pipelines.
-/

set_option autoImplicit false

namespace NNIS

/-- The operations of the row-wise kernels. Dividing by a number of columns is multiplying by its
inverse. -/
structure RowMath (α : Type) where
  negInf : α
  zero : α
  one : α
  ofCols : ℕ → α
  fmaxf : α → α → α
  add : α → α → α
  sub : α → α → α
  mul : α → α → α
  div : α → α → α
  fmaf : α → α → α → α
  expf : α → α
  rsqrtf : α → α
  div_ofCols : ∀ value cols, 0 < cols → div value (ofCols cols) = mul value (div one (ofCols cols))

/-- A buffer that a kernel may be given. -/
inductive RowBuffer
  | inputMatrix | outputMatrix | rowScalars | rowMeans | rowVars | rowSquares
  deriving DecidableEq

/-- A cell of a buffer, or of the shared memory of a block. -/
inductive RowCell
  | global (buffer : RowBuffer) (index : ℕ)
  | shared (index : ℕ)
  deriving DecidableEq

/-- The shared memory of a block. -/
def RowCell.sharedMemory : Set RowCell := {c | ∃ i, c = .shared i}

/-- A thread of a row-wise kernel. -/
abbrev RowThread (α β : Type) := Thread RowCell (fun _ => α) β

namespace RowThread

variable {α : Type}

/-- Read a cell. -/
def load (c : RowCell) : RowThread α α := @Thread.load RowCell (fun _ => α) c

/-- Write a cell. -/
def store (c : RowCell) (value : α) : RowThread α Unit :=
  @Thread.store RowCell (fun _ => α) c value

end RowThread

open RowThread

section Kernels

variable {α : Type} (math : RowMath α)

/-! ### The parts of the kernels -/

section Parts

variable (cols blockDim blockIdx lane : ℕ)

/-- Reduce the elements of a row, and store the result in a column: `partial` is the whole shared
memory. -/
def rowReduction (combine : α → α → α) (empty : α) (element : ℕ → RowThread α α)
    (output : RowBuffer) : RowThread α Unit := do
  let value ← Thread.laneFold combine empty blockDim cols lane element
  Thread.blockReduce combine .shared blockDim lane value
  if lane = 0 then do
    let total ← load (.shared 0)
    store (.global output blockIdx) total
  else pure ()

/-- Run the body for the index of a thread of a flat grid. -/
def elementwise (count : ℕ) (body : ℕ → RowThread α Unit) : RowThread α Unit :=
  let index := blockIdx * blockDim + lane
  if index < count then body index else pure ()

/-- `values[index] = source[index]` -/
def stageRow (input : RowBuffer) : RowThread α Unit :=
  Thread.forEach (strided lane cols blockDim) fun index => do
    let value ← load (.global input (blockIdx * cols + index))
    store (.shared index) value

/-- Reduce in shared memory behind the staged row, and read the result back. -/
def fusedReduction (combine : α → α → α) (empty : α) (element : ℕ → RowThread α α) :
    RowThread α α := do
  let value ← Thread.laneFold combine empty blockDim cols lane element
  Thread.blockReduce combine (fun lane => .shared (cols + lane)) blockDim lane value
  let total ← load (.shared cols)
  Thread.barrier
  pure total

/-- `destination[index] = result(values[index])` -/
def storeRow (output : RowBuffer) (result : α → α) : RowThread α Unit :=
  Thread.forEach (strided lane cols blockDim) fun index => do
    let value ← load (.shared index)
    store (.global output (blockIdx * cols + index)) (result value)

end Parts

/-! ### Row softmax -/

section Softmax

variable (cols blockDim blockIdx lane : ℕ)

/-- The greatest element of each row. -/
def nnisSoftmaxRowMaxF32 (input rowMax : RowBuffer) : RowThread α Unit :=
  rowReduction cols blockDim blockIdx lane math.fmaxf math.negInf
    (fun index => load (.global input (blockIdx * cols + index))) rowMax

/-- The shifted exponentials. -/
def nnisSoftmaxRowExpShiftF32 (rows : ℕ) (input output rowMax : RowBuffer) : RowThread α Unit :=
  elementwise blockDim blockIdx lane (rows * cols) fun index => do
    let value ← load (.global input index)
    let maximum ← load (.global rowMax (index / cols))
    store (.global output index) (math.expf (math.sub value maximum))

/-- The sum of each row. -/
def nnisSoftmaxRowSumF32 (input rowTotal : RowBuffer) : RowThread α Unit :=
  rowReduction cols blockDim blockIdx lane math.add math.zero
    (fun index => load (.global input (blockIdx * cols + index))) rowTotal

/-- Divide by the totals, in place. -/
def nnisSoftmaxRowNormalizeF32 (rows : ℕ) (data rowTotal : RowBuffer) : RowThread α Unit :=
  elementwise blockDim blockIdx lane (rows * cols) fun index => do
    let value ← load (.global data index)
    let total ← load (.global rowTotal (index / cols))
    store (.global data index) (math.div value total)

/-- A whole row. -/
def nnisSoftmaxRowFusedF32 (input output : RowBuffer) : RowThread α Unit := do
  stageRow cols blockDim blockIdx lane input
  Thread.barrier
  let maximum ← fusedReduction cols blockDim lane math.fmaxf math.negInf
    fun index => load (.shared index)
  let sum ← fusedReduction cols blockDim lane math.add math.zero fun index => do
    let value ← load (.shared index)
    let exponential := math.expf (math.sub value maximum)
    store (.shared index) exponential
    pure exponential
  storeRow cols blockDim blockIdx lane output fun value => math.div value sum

end Softmax

/-! ### Layer norm -/

section LayerNorm

variable (cols blockDim blockIdx lane : ℕ)

/-- The mean of each row, and the sum of the squared deviations from it. -/
def nnisLayernormRowStatsF32 (input rowMean rowVar : RowBuffer) : RowThread α Unit := do
  let value ← Thread.laneFold math.add math.zero blockDim cols lane fun index =>
    load (.global input (blockIdx * cols + index))
  Thread.blockReduce math.add .shared blockDim lane value
  let total ← load (.shared 0)
  let mean := math.div total (math.ofCols cols)
  Thread.barrier
  let value ← Thread.laneFold math.add math.zero blockDim cols lane fun index => do
    let value ← load (.global input (blockIdx * cols + index))
    let centered := math.sub value mean
    pure (math.mul centered centered)
  Thread.blockReduce math.add .shared blockDim lane value
  if lane = 0 then do
    store (.global rowMean blockIdx) mean
    let total ← load (.shared 0)
    store (.global rowVar blockIdx) total
  else pure ()

/-- The affine normalization. -/
def nnisLayernormNormalizeF32 (rows : ℕ) (input output rowMean rowVar : RowBuffer)
    (invCols epsilon gamma beta : α) : RowThread α Unit :=
  elementwise blockDim blockIdx lane (rows * cols) fun index => do
    let total ← load (.global rowVar (index / cols))
    let variance := math.mul total invCols
    let scale := math.rsqrtf (math.add variance epsilon)
    let value ← load (.global input index)
    let mean ← load (.global rowMean (index / cols))
    store (.global output index) (math.fmaf (math.mul (math.sub value mean) scale) gamma beta)

/-- A whole row. -/
def nnisLayernormRowFusedF32 (input output : RowBuffer) (invCols epsilon gamma beta : α) :
    RowThread α Unit := do
  stageRow cols blockDim blockIdx lane input
  Thread.barrier
  let total ← fusedReduction cols blockDim lane math.add math.zero fun index =>
    load (.shared index)
  let mean := math.mul total invCols
  let total ← fusedReduction cols blockDim lane math.add math.zero fun index => do
    let value ← load (.shared index)
    let centered := math.sub value mean
    store (.shared index) centered
    pure (math.mul centered centered)
  let scale := math.rsqrtf (math.add (math.mul total invCols) epsilon)
  storeRow cols blockDim blockIdx lane output fun value =>
    math.fmaf (math.mul value scale) gamma beta

end LayerNorm

/-! ### RMS norm -/

section RmsNorm

variable (cols blockDim blockIdx lane : ℕ)

/-- The sum of the squares of each row. -/
def nnisRmsnormRowSumsqF32 (input rowSumsq : RowBuffer) : RowThread α Unit :=
  rowReduction cols blockDim blockIdx lane math.add math.zero
    (fun index => do
      let value ← load (.global input (blockIdx * cols + index))
      pure (math.mul value value)) rowSumsq

/-- The scaling. -/
def nnisRmsnormNormalizeF32 (rows : ℕ) (input output rowSumsq : RowBuffer)
    (invCols epsilon gamma : α) : RowThread α Unit :=
  elementwise blockDim blockIdx lane (rows * cols) fun index => do
    let total ← load (.global rowSumsq (index / cols))
    let scale := math.rsqrtf (math.add (math.mul total invCols) epsilon)
    let value ← load (.global input index)
    store (.global output index) (math.mul (math.mul value scale) gamma)

/-- A whole row. -/
def nnisRmsnormRowFusedF32 (input output : RowBuffer) (invCols epsilon gamma : α) :
    RowThread α Unit := do
  stageRow cols blockDim blockIdx lane input
  Thread.barrier
  let total ← fusedReduction cols blockDim lane math.add math.zero fun index => do
    let value ← load (.shared index)
    pure (math.mul value value)
  let scale := math.rsqrtf (math.add (math.mul total invCols) epsilon)
  storeRow cols blockDim blockIdx lane output fun value => math.mul (math.mul value scale) gamma

end RmsNorm

end Kernels

end NNIS
