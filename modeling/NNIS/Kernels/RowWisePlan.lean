import Mathlib.Algebra.BigOperators.Group.Finset.Basic
import NNIS.Kernels.RowWise

/-!
# The host of the row-wise operators

What the host submits for row softmax, layer norm and RMS norm: the fused kernel when a row and the
partials of its reductions fit into the shared memory of a block, and the kernels of the pipeline
otherwise. The three families check alike and differ in their messages, in their kernels and in the
columns that they keep. A launch may be refused, and some checks of a launch come after the launches
before it; a call that fails leaves what it has submitted. The stream, the buffers, the workspace
and the kernels share one context.

## Main definitions

* `RowFamily`, `RowLaunch` — a loaded family of kernels, and a submitted launch.
* `RowFamily.softmaxRowsDispatched`, `RowFamily.layerNormRowsDispatched`,
  `RowFamily.rmsNormRowsDispatched` — the entry points, and those of the two paths.
* `RowLaunch.PlanPerforms`, `RowLaunch.PlanWrites` — what submitted launches may leave, and how
  often they write a cell.
-/

set_option autoImplicit false

namespace NNIS

/-- A loaded family of row-wise kernels: the width of its blocks is a power of two, and their
partials can be counted. The attributes of its fused kernel are the shared memory that a block may
use, a 32-bit number, or the failure of the query. -/
structure RowFamily where
  blockSize : ℕ
  isPowerOfTwo : ∃ e, blockSize = 2 ^ e
  sharedMemory_lt : blockSize * 4 < u32Limit
  fusedAttributes : Except NnisError ℕ
  fusedAttributes_lt : ∀ limit, fusedAttributes = .ok limit → limit < u32Limit

/-- A launch over a grid with one extent. -/
structure RowLaunch (α : Type) where
  gridSize : ℕ
  blockSize : ℕ
  sharedMemoryBytes : ℕ
  thread : (blockIdx lane : ℕ) → RowThread α Unit

/-- A stream of the launches. -/
abbrev RowQueue (α : Type) := LaunchQueue NnisError (RowLaunch α)

/-- A launch within the limit of a grid. -/
def RowLaunch.WithinGrid {α : Type} (launch : RowLaunch α) : Prop :=
  launch.gridSize ≤ maxGridXBlocks

/-- The grid of `LaunchConfig::for_num_elements`. -/
def gridForNumElements (elements blockSize : ℕ) : Except NnisError ℕ :=
  if elements = 0 then
    .error (.invalidInput "cannot construct a kernel grid for zero elements")
  else if blockSize = 0 then .error (.invalidInput "kernel block size is zero")
  else if elements ⌈/⌉ blockSize < u32Limit then .ok (elements ⌈/⌉ blockSize)
  else .error (.invalidInput "kernel grid exceeds u32::MAX blocks")

/-- The lengths of the matrices and the shape. -/
structure RowShape where
  lengthInput : ℕ
  lengthOutput : ℕ
  rows : ℕ
  cols : ℕ

namespace RowFamily

variable (family : RowFamily)

/-! ### The checks -/

/-- The shared memory of the fused kernel, in bytes; `fusedName` is what the message begins with. -/
def fusedSharedMemory (fusedName : String) (cols : ℕ) : Except NnisError ℕ := do
  let values ← orInvalid s!"{fusedName} shared size overflows" (checkedMul 4 cols)
  let partials ← orInvalid s!"{fusedName} shared size overflows" (checkedMul 4 family.blockSize)
  orInvalid s!"{fusedName} shared size overflows" (checkedAdd values partials)

/-- Whether the fused kernel can hold a row and its partials. -/
def fusedAvailable (fusedName : String) (cols : ℕ) : Bool :=
  match family.fusedAttributes with
  | .error _ => false
  | .ok limit =>
    match family.fusedSharedMemory fusedName cols with
    | .ok bytes => bytes ≤ limit
    | .error _ => false

/-- The checks of the matrices; `name` is what the messages begin with. -/
def validateShapes (name : String) (shape : RowShape) : Except NnisError Unit := do
  let count ← orInvalid s!"{name} shape overflows usize" (checkedMul shape.rows shape.cols)
  if shape.lengthInput ≠ count then
    .error (.invalidInput (s!"{name} input has {shape.lengthInput} elements; shape " ++
      s!"({shape.rows}, {shape.cols}) requires {count}"))
  else if shape.lengthOutput ≠ count then
    .error (.invalidInput (s!"{name} output has {shape.lengthOutput} elements; shape " ++
      s!"({shape.rows}, {shape.cols}) requires {count}"))
  else .ok ⟨⟩

/-- The checks of the matrices and of the workspace. -/
def validateExecution (name : String) (shape : RowShape) (maxRows : ℕ) : Except NnisError Unit := do
  validateShapes name shape
  if maxRows < shape.rows then
    .error (.invalidInput (s!"{name} has {shape.rows} rows; workspace capacity is {maxRows}"))
  else .ok ⟨⟩

/-- The grid with a block for each row. -/
def rowGrid (name : String) (rows : ℕ) : Except NnisError ℕ :=
  if rows < u32Limit then .ok rows
  else .error (.invalidInput s!"{name} exceeds u32::MAX rows")

/-- The check that columns of a given capacity hold a scalar for each row. -/
def checkScratch (rows capacity : ℕ) (message : String) : Except NnisError Unit :=
  if capacity < rows then .error (.invalidInput message) else .ok ⟨⟩

/-! ### The launches -/

section Launches

variable {α : Type}

/-- Submit a launch with a block for each row and the partials of one reduction; `scratch` is the
check of the columns that the launch writes. -/
def launchRowReduction (name : String) (rows : ℕ) (scratch : Except NnisError Unit)
    (kernel : (blockDim blockIdx lane : ℕ) → RowThread α Unit) :
    Fallible (RowQueue α) NnisError PUnit := do
  let gridSize ← Fallible.ofExcept (rowGrid name rows)
  if family.blockSize * 4 < u32Limit then do
    Fallible.ofExcept scratch
    LaunchQueue.submit ⟨gridSize, family.blockSize, family.blockSize * 4, kernel family.blockSize⟩
  else Fallible.fail (.invalidInput s!"{name} shared memory overflows")

/-- Submit a launch with a thread for each element. -/
def launchElementwise (name : String) (rows cols : ℕ)
    (kernel : (blockDim blockIdx lane : ℕ) → RowThread α Unit) :
    Fallible (RowQueue α) NnisError PUnit := do
  let count ← Fallible.ofExcept (orInvalid s!"{name} length overflows usize" (checkedMul rows cols))
  let gridSize ← Fallible.ofExcept (gridForNumElements count family.blockSize)
  LaunchQueue.submit ⟨gridSize, family.blockSize, 0, kernel family.blockSize⟩

/-- Submit the launch of a fused kernel. -/
def launchFused (name : String) (rows sharedMemoryBytes : ℕ)
    (kernel : (blockDim blockIdx lane : ℕ) → RowThread α Unit) :
    Fallible (RowQueue α) NnisError PUnit := do
  let gridSize ← Fallible.ofExcept (rowGrid name rows)
  if sharedMemoryBytes < u32Limit then
    LaunchQueue.submit ⟨gridSize, family.blockSize, sharedMemoryBytes, kernel family.blockSize⟩
  else Fallible.fail (.invalidInput "fused shared memory exceeds u32")

/-- Submit a fused kernel. -/
def enqueueFused (name fusedName : String) (shape : RowShape)
    (kernel : (blockDim blockIdx lane : ℕ) → RowThread α Unit) :
    Fallible (RowQueue α) NnisError PUnit := do
  Fallible.ofExcept (validateShapes name shape)
  if shape.rows = 0 ∨ shape.cols = 0 then pure ⟨⟩
  else do
    let limit ← Fallible.ofExcept family.fusedAttributes
    let sharedMemoryBytes ← Fallible.ofExcept (family.fusedSharedMemory fusedName shape.cols)
    if limit < sharedMemoryBytes then
      Fallible.fail (.invalidInput
        (s!"{fusedName} needs {sharedMemoryBytes} shared-memory bytes " ++
        s!"for {shape.cols} columns; function limit is {limit}"))
    else family.launchFused name shape.rows sharedMemoryBytes kernel

/-- Wait for the stream after a submission. The answer to the wait counts only if the submission has
not failed. -/
def waited (synchronize : Except NnisError PUnit)
    (enqueue : Fallible (RowQueue α) NnisError PUnit) :
    Fallible (RowQueue α) NnisError PUnit := do
  enqueue
  Fallible.ofExcept synchronize

/-- The path that is available, waited for; `allocate` is what the allocation of a workspace for a
number of rows answers, and `synchronize` what the wait does. -/
def dispatched (fusedName : String) (shape : RowShape) (allocate : ℕ → Except NnisError Unit)
    (synchronize : Except NnisError PUnit) (fused : Fallible (RowQueue α) NnisError PUnit)
    (staged : (maxRows : ℕ) → Fallible (RowQueue α) NnisError PUnit) :
    Fallible (RowQueue α) NnisError PUnit :=
  if family.fusedAvailable fusedName shape.cols then waited synchronize fused
  else do
    Fallible.ofExcept (allocate shape.rows)
    waited synchronize (staged shape.rows)

end Launches

/-! ### The entry points -/

section EntryPoints

variable {α : Type} (math : RowMath α) (input output : RowBuffer) (shape : RowShape) (maxRows : ℕ)
  (allocate : ℕ → Except NnisError Unit) (synchronize : Except NnisError PUnit)

/-- The pipeline of row softmax. -/
def enqueueSoftmaxRows : Fallible (RowQueue α) NnisError PUnit := do
  Fallible.ofExcept (validateExecution "row-softmax" shape maxRows)
  if shape.rows = 0 ∨ shape.cols = 0 then pure ⟨⟩
  else do
    family.launchRowReduction "row-softmax" shape.rows (.ok ⟨⟩) fun blockDim blockIdx lane =>
      nnisSoftmaxRowMaxF32 math shape.cols blockDim blockIdx lane input .rowScalars
    family.launchElementwise "row-softmax" shape.rows shape.cols fun blockDim blockIdx lane =>
      nnisSoftmaxRowExpShiftF32 math shape.cols blockDim blockIdx lane shape.rows input output
        .rowScalars
    family.launchRowReduction "row-softmax" shape.rows (.ok ⟨⟩) fun blockDim blockIdx lane =>
      nnisSoftmaxRowSumF32 math shape.cols blockDim blockIdx lane output .rowScalars
    family.launchElementwise "row-softmax" shape.rows shape.cols fun blockDim blockIdx lane =>
      nnisSoftmaxRowNormalizeF32 math shape.cols blockDim blockIdx lane shape.rows
        output .rowScalars

/-- The fused row softmax. -/
def enqueueFusedSoftmaxRows : Fallible (RowQueue α) NnisError PUnit :=
  family.enqueueFused "row-softmax" "fused row softmax" shape fun blockDim blockIdx lane =>
    nnisSoftmaxRowFusedF32 math shape.cols blockDim blockIdx lane input output

/-- Row softmax. -/
def softmaxRowsDispatched : Fallible (RowQueue α) NnisError PUnit :=
  family.dispatched "fused row softmax" shape allocate synchronize
    (family.enqueueFusedSoftmaxRows math input output shape)
    (family.enqueueSoftmaxRows math input output shape)

/-- The pipeline of layer norm. -/
def enqueueLayerNormRows (epsilon gamma beta : α) : Fallible (RowQueue α) NnisError PUnit := do
  Fallible.ofExcept (validateExecution "layer-norm" shape maxRows)
  if shape.rows = 0 ∨ shape.cols = 0 then pure ⟨⟩
  else do
    let scratch := checkScratch shape.rows maxRows (s!"layer-norm has {shape.rows} rows; " ++
      s!"scratch capacities are                  {maxRows}/{maxRows}")
    family.launchRowReduction "layer-norm" shape.rows scratch fun blockDim blockIdx lane =>
      nnisLayernormRowStatsF32 math shape.cols blockDim blockIdx lane input .rowMeans .rowVars
    family.launchElementwise "layer-norm" shape.rows shape.cols fun blockDim blockIdx lane =>
      nnisLayernormNormalizeF32 math shape.cols blockDim blockIdx lane shape.rows input output
        .rowMeans .rowVars (math.div math.one (math.ofCols shape.cols)) epsilon gamma beta

/-- The fused layer norm. -/
def enqueueFusedLayerNormRows (epsilon gamma beta : α) : Fallible (RowQueue α) NnisError PUnit :=
  family.enqueueFused "layer-norm" "fused layer norm" shape fun blockDim blockIdx lane =>
    nnisLayernormRowFusedF32 math shape.cols blockDim blockIdx lane input output
      (math.div math.one (math.ofCols shape.cols)) epsilon gamma beta

/-- Layer norm. -/
def layerNormRowsDispatched (epsilon gamma beta : α) : Fallible (RowQueue α) NnisError PUnit :=
  family.dispatched "fused layer norm" shape allocate synchronize
    (family.enqueueFusedLayerNormRows math input output shape epsilon gamma beta)
    fun maxRows => family.enqueueLayerNormRows math input output shape maxRows epsilon gamma beta

/-- The pipeline of RMS norm. -/
def enqueueRmsNormRows (epsilon gamma : α) : Fallible (RowQueue α) NnisError PUnit := do
  Fallible.ofExcept (validateExecution "rms-norm" shape maxRows)
  if shape.rows = 0 ∨ shape.cols = 0 then pure ⟨⟩
  else do
    let scratch := checkScratch shape.rows maxRows
      s!"rms-norm has {shape.rows} rows; scratch capacity is {maxRows}"
    family.launchRowReduction "rms-norm" shape.rows scratch fun blockDim blockIdx lane =>
      nnisRmsnormRowSumsqF32 math shape.cols blockDim blockIdx lane input .rowSquares
    family.launchElementwise "rms-norm" shape.rows shape.cols fun blockDim blockIdx lane =>
      nnisRmsnormNormalizeF32 math shape.cols blockDim blockIdx lane shape.rows input output
        .rowSquares (math.div math.one (math.ofCols shape.cols)) epsilon gamma

/-- The fused RMS norm. -/
def enqueueFusedRmsNormRows (epsilon gamma : α) : Fallible (RowQueue α) NnisError PUnit :=
  family.enqueueFused "rms-norm" "fused rms norm" shape fun blockDim blockIdx lane =>
    nnisRmsnormRowFusedF32 math shape.cols blockDim blockIdx lane input output
      (math.div math.one (math.ofCols shape.cols)) epsilon gamma

/-- RMS norm. -/
def rmsNormRowsDispatched (epsilon gamma : α) : Fallible (RowQueue α) NnisError PUnit :=
  family.dispatched "fused rms norm" shape allocate synchronize
    (family.enqueueFusedRmsNormRows math input output shape epsilon gamma)
    fun maxRows => family.enqueueRmsNormRows math input output shape maxRows epsilon gamma

end EntryPoints

/-! ### What is accepted -/

section Accepted

variable {α : Type} {family : RowFamily} {name fusedName : String} {rows cols : ℕ}
  {shape : RowShape} {kernel : (blockDim blockIdx lane : ℕ) → RowThread α Unit}

theorem blockSize_pos (family : RowFamily) : 0 < family.blockSize := by
  obtain ⟨e, he⟩ := family.isPowerOfTwo
  exact he ▸ Nat.two_pow_pos e

private theorem checked_eq_ok_iff {what : String} {a b c : ℕ} :
    orInvalid what (checkedMul a b) = .ok c ↔ a * b = c ∧ c < wordLimit := by
  rw [← checkedMul_eq_some_iff]
  cases checkedMul a b with
  | none => exact ⟨nofun, nofun⟩
  | some n => exact ⟨fun h => congrArg some (Except.ok.inj h), fun h => congrArg Except.ok
      (Option.some.inj h)⟩

theorem validateShapes_eq_ok_iff : validateShapes name shape = .ok ⟨⟩ ↔
    shape.rows * shape.cols < wordLimit ∧ shape.lengthInput = shape.rows * shape.cols ∧
      shape.lengthOutput = shape.rows * shape.cols := by
  rw [validateShapes, Except.bind_eq_ok_iff]
  constructor
  · rintro ⟨count, hcount, h⟩
    obtain ⟨rfl, hlt⟩ := checked_eq_ok_iff.1 hcount
    split_ifs at h with hinput houtput
    exact ⟨hlt, not_not.1 hinput, not_not.1 houtput⟩
  · rintro ⟨hlt, hinput, houtput⟩
    refine ⟨_, checked_eq_ok_iff.2 ⟨rfl, hlt⟩, ?_⟩
    rw [if_neg (not_not.2 hinput), if_neg (not_not.2 houtput)]

theorem validateExecution_eq_ok_iff {maxRows : ℕ} :
    validateExecution name shape maxRows = .ok ⟨⟩ ↔
      validateShapes name shape = .ok ⟨⟩ ∧ shape.rows ≤ maxRows := by
  rw [validateExecution, Except.bind_eq_ok_iff]
  constructor
  · rintro ⟨⟨⟩, hshapes, h⟩
    split_ifs at h with hlt
    exact ⟨hshapes, Nat.not_lt.1 hlt⟩
  · rintro ⟨hshapes, hle⟩
    exact ⟨⟨⟩, hshapes, if_neg (Nat.not_lt.2 hle)⟩

private theorem rowGrid_eq_ok_iff {grid : ℕ} :
    rowGrid name rows = .ok grid ↔ rows < u32Limit ∧ grid = rows := by
  rw [rowGrid]
  split_ifs with hlt
  · exact ⟨fun h => ⟨hlt, (Except.ok.inj h).symm⟩, fun ⟨_, h⟩ => h ▸ rfl⟩
  · exact ⟨nofun, fun ⟨h, _⟩ => absurd h hlt⟩

/-- Rows within the limit of a grid have one. -/
private theorem rowGrid_eq_ok (h : rows ≤ maxGridXBlocks) : rowGrid name rows = .ok rows :=
  rowGrid_eq_ok_iff.2 ⟨h.trans_lt (by decide), rfl⟩

theorem checkScratch_eq_ok {capacity : ℕ} {message : String} (h : rows ≤ capacity) :
    checkScratch rows capacity message = .ok ⟨⟩ := if_neg (Nat.not_lt.2 h)

theorem launchRowReduction_submits (family : RowFamily) (name : String) (rows : ℕ)
    (scratch : Except NnisError Unit) (kernel : (blockDim blockIdx lane : ℕ) → RowThread α Unit) :
    LaunchQueue.Submits (family.launchRowReduction name rows scratch kernel)
      [⟨rows, family.blockSize, family.blockSize * 4, kernel family.blockSize⟩] := by
  refine LaunchQueue.Submits.ofExcept_bind fun grid hgrid => ?_
  obtain ⟨-, rfl⟩ := rowGrid_eq_ok_iff.1 hgrid
  rw [if_pos family.sharedMemory_lt]
  exact .ofExcept_bind fun _ _ => .submit _

theorem launchRowReduction_returns {scratch : Except NnisError Unit} (h : rows ≤ maxGridXBlocks)
    (hscratch : scratch = .ok ⟨⟩) :
    LaunchQueue.Returns RowLaunch.WithinGrid
      (family.launchRowReduction name rows scratch kernel) := by
  refine LaunchQueue.Returns.ofExcept_bind (rowGrid_eq_ok h) ?_
  rw [if_pos family.sharedMemory_lt]
  exact .ofExcept_bind hscratch (.submit h)

theorem gridForNumElements_eq_ok_iff {elements blockSize grid : ℕ} (hpos : 0 < blockSize) :
    gridForNumElements elements blockSize = .ok grid ↔
      0 < elements ∧ elements ⌈/⌉ blockSize < u32Limit ∧ grid = elements ⌈/⌉ blockSize := by
  rw [gridForNumElements, if_neg hpos.ne']
  split_ifs with hzero hlt
  · exact ⟨nofun, fun ⟨h, _⟩ => absurd hzero h.ne'⟩
  · exact ⟨fun h => ⟨Nat.pos_of_ne_zero hzero, hlt, (Except.ok.inj h).symm⟩,
      fun ⟨_, _, h⟩ => h ▸ rfl⟩
  · exact ⟨nofun, fun ⟨_, h, _⟩ => absurd h hlt⟩

theorem launchElementwise_submits (family : RowFamily) (name : String) (rows cols : ℕ)
    (kernel : (blockDim blockIdx lane : ℕ) → RowThread α Unit) :
    LaunchQueue.Submits (family.launchElementwise name rows cols kernel)
      [⟨rows * cols ⌈/⌉ family.blockSize, family.blockSize, 0, kernel family.blockSize⟩] := by
  refine LaunchQueue.Submits.ofExcept_bind fun count hcount => ?_
  obtain ⟨rfl, -⟩ := checked_eq_ok_iff.1 hcount
  refine LaunchQueue.Submits.ofExcept_bind fun grid hgrid => ?_
  obtain ⟨-, -, rfl⟩ := (gridForNumElements_eq_ok_iff family.blockSize_pos).1 hgrid
  exact .submit _

theorem launchElementwise_returns (hlt : rows * cols < wordLimit) (hpos : 0 < rows * cols)
    (h : rows * cols ⌈/⌉ family.blockSize ≤ maxGridXBlocks) :
    LaunchQueue.Returns RowLaunch.WithinGrid (family.launchElementwise name rows cols kernel) :=
  .ofExcept_bind (checked_eq_ok_iff.2 ⟨rfl, hlt⟩) (.ofExcept_bind
    ((gridForNumElements_eq_ok_iff family.blockSize_pos).2 ⟨hpos, h.trans_lt (by decide), rfl⟩)
      (.submit h))

theorem fusedSharedMemory_eq_ok_iff {bytes : ℕ} :
    family.fusedSharedMemory fusedName cols = .ok bytes ↔
      bytes = 4 * cols + 4 * family.blockSize ∧ bytes < wordLimit := by
  rw [fusedSharedMemory, Except.bind_eq_ok_iff]
  constructor
  · rintro ⟨values, hvalues, h⟩
    obtain ⟨partials, hpartials, h⟩ := Except.bind_eq_ok_iff.1 h
    obtain ⟨rfl, -⟩ := checked_eq_ok_iff.1 hvalues
    obtain ⟨rfl, -⟩ := checked_eq_ok_iff.1 hpartials
    rw [checkedAdd] at h
    split_ifs at h with hlt
    · obtain rfl := Except.ok.inj h
      exact ⟨rfl, hlt⟩
    · exact nomatch h
  · rintro ⟨rfl, hlt⟩
    refine ⟨_, checked_eq_ok_iff.2 ⟨rfl, (Nat.le_add_right _ _).trans_lt hlt⟩, ?_⟩
    refine Except.bind_eq_ok_iff.2
      ⟨_, checked_eq_ok_iff.2 ⟨rfl, (Nat.le_add_left _ _).trans_lt hlt⟩, ?_⟩
    rw [checkedAdd, if_pos hlt]
    rfl

private theorem shape_nonempty (hrows : 0 < shape.rows) (hcols : 0 < shape.cols) :
    ¬ (shape.rows = 0 ∨ shape.cols = 0) := by
  omega

/-- What a fused path submits. -/
theorem enqueueFused_submits (hrows : 0 < shape.rows) (hcols : 0 < shape.cols) :
    LaunchQueue.Submits (family.enqueueFused name fusedName shape kernel)
      [⟨shape.rows, family.blockSize, 4 * shape.cols + 4 * family.blockSize,
        kernel family.blockSize⟩] := by
  refine LaunchQueue.Submits.ofExcept_bind fun _ _ => ?_
  rw [if_neg (shape_nonempty hrows hcols)]
  refine LaunchQueue.Submits.ofExcept_bind fun limit _ => ?_
  refine LaunchQueue.Submits.ofExcept_bind fun bytes hbytes => ?_
  obtain ⟨rfl, -⟩ := fusedSharedMemory_eq_ok_iff.1 hbytes
  split_ifs with hover
  · exact .fail _ _
  · refine LaunchQueue.Submits.ofExcept_bind fun grid hgrid => ?_
    obtain ⟨-, rfl⟩ := rowGrid_eq_ok_iff.1 hgrid
    split_ifs with hbytesLt
    · exact .submit _
    · exact .fail _ _

/-- A fused path that is available returns. -/
theorem enqueueFused_returns (hrows : 0 < shape.rows) (hcols : 0 < shape.cols)
    (hshapes : validateShapes name shape = .ok ⟨⟩) (hgrid : shape.rows ≤ maxGridXBlocks)
    (havailable : ∃ limit, family.fusedAttributes = .ok limit ∧
      4 * shape.cols + 4 * family.blockSize ≤ limit) :
    LaunchQueue.Returns RowLaunch.WithinGrid (family.enqueueFused name fusedName shape kernel) := by
  obtain ⟨limit, hlimit, hle⟩ := havailable
  have hbytesLt := hle.trans_lt (family.fusedAttributes_lt limit hlimit)
  have hword : u32Limit ≤ wordLimit := by decide
  refine LaunchQueue.Returns.ofExcept_bind hshapes ?_
  rw [if_neg (shape_nonempty hrows hcols)]
  refine .ofExcept_bind hlimit (.ofExcept_bind
    (fusedSharedMemory_eq_ok_iff.2 ⟨rfl, hbytesLt.trans_le hword⟩) ?_)
  rw [if_neg (Nat.not_lt.2 hle)]
  refine LaunchQueue.Returns.ofExcept_bind (rowGrid_eq_ok hgrid) ?_
  rw [if_pos hbytesLt]
  exact .submit hgrid

theorem fusedAvailable_eq_true_iff : family.fusedAvailable fusedName cols = true ↔
    ∃ limit, family.fusedAttributes = .ok limit ∧ 4 * cols + 4 * family.blockSize ≤ limit := by
  have hword : u32Limit ≤ wordLimit := by decide
  rw [fusedAvailable]
  constructor
  · intro h
    split at h
    · exact nomatch h
    · rename_i limit hlimit
      split at h
      · rename_i bytes hbytes
        obtain ⟨rfl, -⟩ := fusedSharedMemory_eq_ok_iff.1 hbytes
        exact ⟨limit, hlimit, of_decide_eq_true h⟩
      · exact nomatch h
  · rintro ⟨limit, hlimit, hle⟩
    have hlt := (hle.trans_lt (family.fusedAttributes_lt limit hlimit)).trans_le hword
    have hbytes : family.fusedSharedMemory fusedName cols = .ok (4 * cols + 4 * family.blockSize) :=
      fusedSharedMemory_eq_ok_iff.2 ⟨rfl, hlt⟩
    simp only [hlimit, hbytes]
    exact decide_eq_true hle

end Accepted

end RowFamily

/-! ### What submitted launches leave -/

namespace RowLaunch

variable {α : Type}

/-- What a launch may leave. -/
def Performs (launch : RowLaunch α) (memory memory' : RowCell → α) : Prop :=
  ∃ order : List ℕ, order.Perm (List.range launch.gridSize) ∧
    @Launches RowCell (fun _ => α) Unit ℕ _ RowCell.sharedMemory launch.blockSize launch.thread
      order memory memory'

/-- What launches submitted to one stream may leave. -/
def PlanPerforms : List (RowLaunch α) → (RowCell → α) → (RowCell → α) → Prop
  | [], memory, memory' => memory' = memory
  | launch :: plan, memory, memory' =>
    ∃ memory₁, launch.Performs memory memory₁ ∧ PlanPerforms plan memory₁ memory'

/-- How often the threads of a launch write a cell, whatever they read. -/
def Writes (launch : RowLaunch α) (c : RowCell) (n : ℕ) : Prop :=
  ∃ count : ℕ → ℕ → ℕ,
    (∀ blockIdx < launch.gridSize, ∀ lane < launch.blockSize,
      (launch.thread blockIdx lane).Writes c (count blockIdx lane)) ∧
    n = ∑ blockIdx ∈ Finset.range launch.gridSize,
      ∑ lane ∈ Finset.range launch.blockSize, count blockIdx lane

/-- How often submitted launches write a cell. -/
def PlanWrites (c : RowCell) : List (RowLaunch α) → ℕ → Prop
  | [], n => n = 0
  | launch :: plan, n => ∃ first rest, launch.Writes c first ∧ PlanWrites c plan rest ∧
    n = first + rest

end RowLaunch

end NNIS
