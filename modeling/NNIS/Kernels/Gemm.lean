import NNIS.Kernels.Reduction
import NNIS.Parallel.Launch
import NNIS.Parallel.LaunchQueue
import NNIS.Parallel.Loop

/-!
# Tiled matrix products

The products of `nnis-kernels/src/gemm.rs`. A block computes a square tile of the product: in every
round its threads stage a tile of each operand in shared memory, padded with zeros, and each thread
continues its fold over the inner dimension. The four kernels share their body; they differ in where
the operands of a batch begin and in where an element of the second operand is. Indices are
naturals, which admitted shapes keep below 64 bits. What is submitted may be refused. The stream,
the buffers and the kernels share one context, and the output is a buffer of its own.

## Main definitions

* `GemmMath`, `TiledProduct`, `TiledProduct.thread` — the shared body.
* `nnisGemmF32`, `nnisGemmNtF32`, `nnisGemmBatchedF32`, `nnisGemmNtBatchedF32` — the kernels.
* `F32Gemm`, `GemmPlan` — the checks of the host and what it submits.
-/

set_option autoImplicit false

namespace NNIS

/-- A cell of the operands, of the product or of the tiles of a block. -/
inductive GemmCell
  | matrixA (index : ℕ)
  | matrixB (index : ℕ)
  | output (index : ℕ)
  | tileA (index : ℕ)
  | tileB (index : ℕ)
  deriving DecidableEq

/-- The values of a cell. -/
abbrev GemmCell.Value (α : Type) : GemmCell → Type := fun _ => α

/-- The operations of a product. A padded position adds nothing. -/
structure GemmMath (α : Type) where
  zero : α
  fmaf : α → α → α → α
  fmaf_zero : ∀ v, fmaf zero zero v = v

/-- What a block of a kernel computes with: the shape, where its operands and its product begin, and
where an element of the second operand is. -/
structure TiledProduct where
  m : ℕ
  n : ℕ
  k : ℕ
  baseA : ℕ
  baseB : ℕ
  baseOutput : ℕ
  indexB : (depth col : ℕ) → ℕ

namespace TiledProduct

variable {α : Type}

/-- A thread of a block of a product. -/
abbrev ThreadM (α β : Type) := Thread GemmCell (GemmCell.Value α) β

/-- Read a cell. -/
def load (c : GemmCell) : ThreadM α α := @Thread.load GemmCell (GemmCell.Value α) c

/-- Write a cell. -/
def store (c : GemmCell) (value : α) : ThreadM α Unit :=
  @Thread.store GemmCell (GemmCell.Value α) c value

variable (math : GemmMath α) (p : TiledProduct) (tileSide : ℕ) (blockIdx : Dim3) (tid : ℕ)

/-- The row of the product that a thread computes. -/
def row : ℕ := blockIdx.x * tileSide + tid / tileSide

/-- The column of the product that a thread computes. -/
def col : ℕ := blockIdx.y * tileSide + tid % tileSide

/-- Copy an element into a tile, or a zero from outside of the operand. -/
def stage (inside : Prop) [Decidable inside] (source destination : GemmCell) : ThreadM α Unit :=
  if inside then do
    let value ← load source
    store destination value
  else store destination math.zero

/-- Stage the elements of a thread. -/
def stageTiles (tileStart : ℕ) : ThreadM α Unit := do
  let row := row tileSide blockIdx tid
  let col := col tileSide blockIdx tid
  let tx := tid % tileSide
  let ty := tid / tileSide
  let aCol := tileStart + tx
  stage math (row < p.m ∧ aCol < p.k) (.matrixA (p.baseA + (row * p.k + aCol)))
    (.tileA (ty * tileSide + tx))
  let bRow := tileStart + ty
  stage math (bRow < p.k ∧ col < p.n) (.matrixB (p.baseB + p.indexB bRow col))
    (.tileB (ty * tileSide + tx))

/-- Continue the fold of a thread over the tiles. -/
def multiplyTiles (value : α) : ThreadM α α :=
  Thread.fold (List.range tileSide) value fun value depth => do
    let x ← load (.tileA (tid / tileSide * tileSide + depth))
    let y ← load (.tileB (depth * tileSide + tid % tileSide))
    pure (math.fmaf x y value)

/-- One round. -/
def tileRound (value : α) (tileStart : ℕ) : ThreadM α α := do
  p.stageTiles math tileSide blockIdx tid tileStart
  Thread.barrier
  let value ← multiplyTiles math tileSide tid value
  Thread.barrier
  pure value

/-- Write the element of a thread. -/
def storeElement (value : α) : ThreadM α Unit :=
  let row := row tileSide blockIdx tid
  let col := col tileSide blockIdx tid
  if row < p.m ∧ col < p.n then store (.output (p.baseOutput + (row * p.n + col))) value
  else pure ()

/-- A thread of a block. -/
def thread : ThreadM α Unit := do
  let value ← Thread.fold (strided 0 p.k tileSide) math.zero
    (p.tileRound math tileSide blockIdx tid)
  p.storeElement tileSide blockIdx tid value

end TiledProduct

/-! ### The kernels -/

/-- The product. -/
def nnisGemmF32 (m n k : ℕ) : TiledProduct where
  m := m
  n := n
  k := k
  baseA := 0
  baseB := 0
  baseOutput := 0
  indexB bRow col := bRow * n + col

/-- The product with the transpose of the second operand. -/
def nnisGemmNtF32 (m n k : ℕ) : TiledProduct where
  m := m
  n := n
  k := k
  baseA := 0
  baseB := 0
  baseOutput := 0
  indexB depth col := col * k + depth

/-- One product of several. -/
def nnisGemmBatchedF32 (m n k batch : ℕ) : TiledProduct where
  m := m
  n := n
  k := k
  baseA := batch * m * k
  baseB := batch * k * n
  baseOutput := batch * m * n
  indexB bRow col := bRow * n + col

/-- One product of several with the transpose of the second operand. -/
def nnisGemmNtBatchedF32 (m n k batch : ℕ) : TiledProduct where
  m := m
  n := n
  k := k
  baseA := batch * m * k
  baseB := batch * n * k
  baseOutput := batch * m * n
  indexB depth col := col * k + depth

/-! ### The host -/

/-- A loaded product: the side of its tiles is a power of two, and its shared memory can be
counted. -/
structure F32Gemm where
  tileSide : ℕ
  isPowerOfTwo : ∃ e, tileSide = 2 ^ e
  sharedMemory_lt : tileSide * tileSide * 2 * 4 < u32Limit

/-- The limit of the second and of the third extent of a grid. -/
def maxGridYBlocks : ℕ := 65535

/-- What the host submits. -/
inductive GemmPlan
  | nothing
  | zero
  | launch (grid : Dim3) (sharedMemoryBytes : ℕ)

/-- A stream of the work. -/
abbrev GemmQueue := LaunchQueue NnisError GemmPlan

namespace F32Gemm

variable (gemm : F32Gemm)

/-- The shared memory of a block. -/
def sharedMemoryBytes : Except NnisError ℕ :=
  if gemm.tileSide * gemm.tileSide * 2 * 4 < u32Limit then
    .ok (gemm.tileSide * gemm.tileSide * 2 * 4)
  else .error (.invalidInput "gemm shared-memory size overflows")

/-- The checks of the operands and of the output. -/
def validateExecution (lengthA lengthB lengthOutput m n k : ℕ) : Except NnisError Unit := do
  let expectedA ← orInvalid "gemm shape overflows usize" (checkedMul m k)
  let expectedB ← orInvalid "gemm shape overflows usize" (checkedMul k n)
  let expectedOutput ← orInvalid "gemm shape overflows usize" (checkedMul m n)
  if lengthA ≠ expectedA then
    .error (.invalidInput (s!"gemm matrix_a has {lengthA} elements; shape ({m}, {k}) requires " ++
      s!"{expectedA}"))
  else if lengthB ≠ expectedB then
    .error (.invalidInput (s!"gemm matrix_b has {lengthB} elements; shape ({k}, {n}) requires " ++
      s!"{expectedB}"))
  else if lengthOutput ≠ expectedOutput then
    .error (.invalidInput
      (s!"gemm output has {lengthOutput} elements; shape ({m}, {n}) requires " ++
      s!"{expectedOutput}"))
  else .ok ⟨⟩

/-- The checks of the operands and of the output, the second operand being stored transposed. -/
def validateExecutionNt (lengthA lengthB lengthOutput m n k : ℕ) : Except NnisError Unit := do
  let expectedA ← orInvalid "gemm-nt shape overflows usize" (checkedMul m k)
  let expectedB ← orInvalid "gemm-nt shape overflows usize" (checkedMul n k)
  let expectedOutput ← orInvalid "gemm-nt shape overflows usize" (checkedMul m n)
  if lengthA ≠ expectedA then
    .error (.invalidInput (s!"gemm-nt matrix_a has {lengthA} elements; shape ({m}, {k}) " ++
      s!"requires {expectedA}"))
  else if lengthB ≠ expectedB then
    .error (.invalidInput (s!"gemm-nt matrix_b has {lengthB} elements; shape ({n}, {k}) " ++
      s!"requires {expectedB}"))
  else if lengthOutput ≠ expectedOutput then
    .error (.invalidInput (s!"gemm-nt output has {lengthOutput} elements; shape ({m}, {n}) " ++
      s!"requires {expectedOutput}"))
  else .ok ⟨⟩

/-- The product of three factors, if it and that of the first two fit. -/
def checkedMul₃ (x y z : ℕ) : Except NnisError ℕ :=
  orInvalid "batched gemm shape overflows usize" ((checkedMul x y).bind fun xy => checkedMul xy z)

/-- The number of elements of the packed second operand. -/
def packedB (batches n k : ℕ) (transposedB : Bool) : Except NnisError ℕ :=
  if transposedB then checkedMul₃ batches n k else checkedMul₃ batches k n

/-- The checks of the packed operands and of the packed output, with the number of layers. -/
def validateBatchedExecution (lengthA lengthB lengthOutput batches m n k : ℕ)
    (transposedB : Bool) : Except NnisError ℕ :=
  if batches = 0 then .error (.invalidInput "gemm requires at least one batch")
  else if maxGridYBlocks < batches then
    .error (.invalidInput (s!"batched gemm requires {batches} batch blocks; gridDim.z limit is " ++
      s!"{maxGridYBlocks}"))
  else do
    let expectedA ← checkedMul₃ batches m k
    let expectedB ← packedB batches n k transposedB
    let expectedOutput ← checkedMul₃ batches m n
    if lengthA ≠ expectedA then
      .error (.invalidInput (s!"batched gemm matrix_a has {lengthA} elements; {batches} batches " ++
        s!"of shape ({m}, {k}) requires {expectedA}"))
    else if lengthB ≠ expectedB then
      .error (.invalidInput (s!"batched gemm matrix_b has {lengthB} elements; {batches} batches " ++
        s!"require {expectedB}"))
    else if lengthOutput ≠ expectedOutput then
      .error (.invalidInput (s!"batched gemm output has {lengthOutput} elements; {batches} " ++
        s!"batches of shape ({m}, {n}) requires {expectedOutput}"))
    else .ok batches

/-- Submit the work for operands that have been checked. The entry points differ in the name and in
the bound of the rows that their messages give. -/
def enqueueChecked (name rows : String) (layers m n k : ℕ) : Fallible GemmQueue NnisError PUnit :=
  if m = 0 ∨ n = 0 then pure ⟨⟩
  else if k = 0 then LaunchQueue.submit .zero
  else do
    let sharedMemoryBytes ← Fallible.ofExcept gemm.sharedMemoryBytes
    let gridX := m ⌈/⌉ gemm.tileSide
    let gridY := n ⌈/⌉ gemm.tileSide
    if u32Limit ≤ gridX then Fallible.fail (.invalidInput s!"{name} exceeds {rows} row blocks")
    else if maxGridYBlocks < gridY then
      Fallible.fail (.invalidInput
        (s!"{name} requires {gridY} column blocks; gridDim.y limit is " ++ s!"{maxGridYBlocks}"))
    else LaunchQueue.submit (.launch ⟨gridX, gridY, layers⟩ sharedMemoryBytes)

/-- The product. -/
def enqueueGemm (lengthA lengthB lengthOutput m n k : ℕ) : Fallible GemmQueue NnisError PUnit := do
  Fallible.ofExcept (validateExecution lengthA lengthB lengthOutput m n k)
  gemm.enqueueChecked "gemm" "u32::MAX" 1 m n k

/-- The product with the transpose of the second operand. -/
def enqueueGemmTransposedB (lengthA lengthB lengthOutput m n k : ℕ) :
    Fallible GemmQueue NnisError PUnit := do
  Fallible.ofExcept (validateExecutionNt lengthA lengthB lengthOutput m n k)
  gemm.enqueueChecked "gemm-nt" "u32::MAX" 1 m n k

/-- Several products. -/
def enqueueGemmBatched (lengthA lengthB lengthOutput batches m n k : ℕ) :
    Fallible GemmQueue NnisError PUnit := do
  let gridZ ← Fallible.ofExcept
    (validateBatchedExecution lengthA lengthB lengthOutput batches m n k false)
  gemm.enqueueChecked "batched gemm" "u32" gridZ m n k

/-- Several products with the transpose of the second operand. -/
def enqueueGemmTransposedBBatched (lengthA lengthB lengthOutput batches m n k : ℕ) :
    Fallible GemmQueue NnisError PUnit := do
  let gridZ ← Fallible.ofExcept
    (validateBatchedExecution lengthA lengthB lengthOutput batches m n k true)
  gemm.enqueueChecked "batched gemm-nt" "u32" gridZ m n k

end F32Gemm

/-! ### What a submission leaves -/

/-- What is submitted for a plan. -/
def GemmPlan.work : GemmPlan → List GemmPlan
  | .nothing => []
  | plan => [plan]

/-- A call returns and submits a plan on every stream that accepts the work. -/
def GemmPlan.Enqueued (plan : GemmPlan) (call : Fallible GemmQueue NnisError PUnit) : Prop :=
  ∀ queue : GemmQueue, queue.Accepts (· ∈ plan.work) →
    call.run queue = (.ok ⟨⟩, queue.extend plan.work)

/-- The tiles of a block. -/
def GemmCell.tiles : Set GemmCell := {c | ∃ i, c = .tileA i ∨ c = .tileB i}

/-- What the submitted work may leave in the memory. The layers of a grid run the kernels of the
batches. -/
def GemmPlan.Performs {α : Type} (math : GemmMath α) (gemm : F32Gemm) (kernel : ℕ → TiledProduct)
    (lengthOutput : ℕ) : GemmPlan → (GemmCell → α) → (GemmCell → α) → Prop
  | .nothing, memory, memory' => memory' = memory
  | .zero, memory, memory' => memory' = fun
    | .output i => if i < lengthOutput then math.zero else memory (.output i)
    | c => memory c
  | .launch grid _, memory, memory' =>
    ∃ order : List Dim3, order.Perm grid.indices ∧
      @Launches GemmCell (GemmCell.Value α) Unit Dim3 _ GemmCell.tiles
        (gemm.tileSide * gemm.tileSide)
        (fun blockIdx tid => (kernel blockIdx.z).thread math gemm.tileSide blockIdx tid)
        order memory memory'

end NNIS
