import Mathlib.Analysis.SpecialFunctions.Log.ERealExp
import Mathlib.Analysis.SpecialFunctions.Sqrt
import Mathlib.Data.EReal.Inv
import NNIS.Kernels.RowWiseWrites

/-!
# The row-wise operators do not depend on their path

The fused kernels and the pipelines of row softmax, layer norm and RMS norm leave the same matrix:
the row function of the operator, applied to each row. What they leave does not depend on the orders
of the blocks and of the threads, nor on whether the input and the output are one buffer. The fused
kernels and the pipelines of the norms write each element once; the pipeline of row softmax writes
it once with its shifted exponential and once with its quotient. A call that fails has submitted a
beginning of the launches of its path.

## Main definitions

* `RowOperator`, `RowOperator.result` — the operators and their results.
* `RowLaunch.PlanComputes` — submitted launches that compute a function of the input.
* `RowMath.ofEReal` — exact arithmetic.

## Main results

* `RowOperator.dispatch_transparent` — the fused path, the pipeline and the path that is chosen.
-/

set_option autoImplicit false

namespace NNIS

open RowThread

variable {α : Type}

/-- Matrices of a shape that can be counted. -/
def RowShape.Holds (shape : RowShape) : Prop :=
  shape.rows * shape.cols < wordLimit ∧ shape.lengthInput = shape.rows * shape.cols ∧
    shape.lengthOutput = shape.rows * shape.cols

/-- A row-wise operator with its parameters. -/
inductive RowOperator (α : Type)
  | softmax
  | layerNorm (epsilon gamma beta : α)
  | rmsNorm (epsilon gamma : α)

/-- Submitted launches compute a function of the input, if it holds a matrix: they can be performed,
however they are performed the output holds the results and the rest stays, no launch writes an
element twice, and together they write it a number of times. -/
structure RowLaunch.PlanComputes (input output : RowBuffer) (count : ℕ)
    (result : (ℕ → α) → ℕ → α) (times : ℕ) (plan : List (RowLaunch α)) : Prop where
  runs : ∀ memory, ∃ memory', PlanPerforms plan memory memory'
  computes : ∀ (x : ℕ → α) (memory memory' : RowCell → α),
    (∀ i < count, memory (.global input i) = x i) → PlanPerforms plan memory memory' →
      RowResult input output count (result x) memory memory'
  once : ∀ launch ∈ plan, ∀ o < count, ∃ n ≤ 1, launch.Writes (.global output o) n
  writes : ∀ o < count, PlanWrites (.global output o) plan times

namespace RowOperator

variable (operator : RowOperator α) (math : RowMath α) (family : RowFamily)
  (input output : RowBuffer) (shape : RowShape)

/-- What the messages of the fused path begin with. -/
def fusedName : RowOperator α → String
  | softmax => "fused row softmax"
  | layerNorm .. => "fused layer norm"
  | rmsNorm .. => "fused rms norm"

/-- The function of an operator on a row. -/
def row (width cols : ℕ) : RowOperator α → (ℕ → α) → ℕ → α
  | softmax => softmaxRow math width cols
  | layerNorm epsilon gamma beta => layerNormRow math width cols epsilon gamma beta
  | rmsNorm epsilon gamma => rmsNormRow math width cols epsilon gamma

/-- The function of an operator on a matrix. -/
def result (width cols : ℕ) : (ℕ → α) → ℕ → α := rowwise cols (operator.row math width cols)

/-- The fused path. -/
def enqueueFused : RowOperator α → Fallible (RowQueue α) NnisError PUnit
  | softmax => family.enqueueFusedSoftmaxRows math input output shape
  | layerNorm epsilon gamma beta =>
    family.enqueueFusedLayerNormRows math input output shape epsilon gamma beta
  | rmsNorm epsilon gamma => family.enqueueFusedRmsNormRows math input output shape epsilon gamma

/-- The pipeline. -/
def enqueueStaged (maxRows : ℕ) : RowOperator α → Fallible (RowQueue α) NnisError PUnit
  | softmax => family.enqueueSoftmaxRows math input output shape maxRows
  | layerNorm epsilon gamma beta =>
    family.enqueueLayerNormRows math input output shape maxRows epsilon gamma beta
  | rmsNorm epsilon gamma => family.enqueueRmsNormRows math input output shape maxRows epsilon gamma

/-- The path that is available, waited for. -/
def dispatched (allocate : ℕ → Except NnisError Unit) (synchronize : Except NnisError PUnit) :
    RowOperator α → Fallible (RowQueue α) NnisError PUnit
  | softmax => family.softmaxRowsDispatched math input output shape allocate synchronize
  | layerNorm epsilon gamma beta =>
    family.layerNormRowsDispatched math input output shape allocate synchronize epsilon gamma beta
  | rmsNorm epsilon gamma =>
    family.rmsNormRowsDispatched math input output shape allocate synchronize epsilon gamma

/-- How often the pipeline writes an element. -/
def stagedWrites : RowOperator α → ℕ
  | softmax => 2
  | layerNorm .. => 1
  | rmsNorm .. => 1

theorem dispatched_eq (allocate : ℕ → Except NnisError Unit)
    (synchronize : Except NnisError PUnit) :
    operator.dispatched math family input output shape allocate synchronize =
      family.dispatched operator.fusedName shape allocate synchronize
        (operator.enqueueFused math family input output shape)
        fun maxRows => operator.enqueueStaged math family input output shape maxRows := by
  cases operator <;> rfl

/-- The launches of the fused path. -/
def fusedPlan : RowOperator α → List (RowLaunch α)
  | softmax => [⟨shape.rows, family.blockSize, 4 * shape.cols + 4 * family.blockSize,
      fun blockIdx lane =>
        nnisSoftmaxRowFusedF32 math shape.cols family.blockSize blockIdx lane input output⟩]
  | layerNorm epsilon gamma beta =>
    [⟨shape.rows, family.blockSize, 4 * shape.cols + 4 * family.blockSize, fun blockIdx lane =>
      nnisLayernormRowFusedF32 math shape.cols family.blockSize blockIdx lane input output
        (math.div math.one (math.ofCols shape.cols)) epsilon gamma beta⟩]
  | rmsNorm epsilon gamma =>
    [⟨shape.rows, family.blockSize, 4 * shape.cols + 4 * family.blockSize, fun blockIdx lane =>
      nnisRmsnormRowFusedF32 math shape.cols family.blockSize blockIdx lane input output
        (math.div math.one (math.ofCols shape.cols)) epsilon gamma⟩]

/-- The launches of the pipeline. -/
def stagedPlan : RowOperator α → List (RowLaunch α)
  | softmax =>
    [⟨shape.rows, family.blockSize, family.blockSize * 4, fun blockIdx lane =>
        nnisSoftmaxRowMaxF32 math shape.cols family.blockSize blockIdx lane input .rowScalars⟩,
      ⟨shape.rows * shape.cols ⌈/⌉ family.blockSize, family.blockSize, 0, fun blockIdx lane =>
        nnisSoftmaxRowExpShiftF32 math shape.cols family.blockSize blockIdx lane shape.rows input
          output .rowScalars⟩,
      ⟨shape.rows, family.blockSize, family.blockSize * 4, fun blockIdx lane =>
        nnisSoftmaxRowSumF32 math shape.cols family.blockSize blockIdx lane output .rowScalars⟩,
      ⟨shape.rows * shape.cols ⌈/⌉ family.blockSize, family.blockSize, 0, fun blockIdx lane =>
        nnisSoftmaxRowNormalizeF32 math shape.cols family.blockSize blockIdx lane shape.rows output
          .rowScalars⟩]
  | layerNorm epsilon gamma beta =>
    [⟨shape.rows, family.blockSize, family.blockSize * 4, fun blockIdx lane =>
        nnisLayernormRowStatsF32 math shape.cols family.blockSize blockIdx lane input .rowMeans
          .rowVars⟩,
      ⟨shape.rows * shape.cols ⌈/⌉ family.blockSize, family.blockSize, 0, fun blockIdx lane =>
        nnisLayernormNormalizeF32 math shape.cols family.blockSize blockIdx lane shape.rows input
          output .rowMeans .rowVars (math.div math.one (math.ofCols shape.cols))
            epsilon gamma beta⟩]
  | rmsNorm epsilon gamma =>
    [⟨shape.rows, family.blockSize, family.blockSize * 4, fun blockIdx lane =>
        nnisRmsnormRowSumsqF32 math shape.cols family.blockSize blockIdx lane input .rowSquares⟩,
      ⟨shape.rows * shape.cols ⌈/⌉ family.blockSize, family.blockSize, 0, fun blockIdx lane =>
        nnisRmsnormNormalizeF32 math shape.cols family.blockSize blockIdx lane shape.rows input
          output .rowSquares (math.div math.one (math.ofCols shape.cols)) epsilon gamma⟩]

/-- The launches of the path that is available. -/
def dispatchedPlan : List (RowLaunch α) :=
  if family.fusedAvailable operator.fusedName shape.cols then
    operator.fusedPlan math family input output shape
  else operator.stagedPlan math family input output shape

variable {operator math family input output shape} (hrows : 0 < shape.rows) (hcols : 0 < shape.cols)

include hrows hcols

theorem enqueueFused_submits :
    LaunchQueue.Submits (operator.enqueueFused math family input output shape)
      (operator.fusedPlan math family input output shape) := by
  cases operator <;> exact RowFamily.enqueueFused_submits hrows hcols

theorem enqueueFused_returns (hshape : shape.Holds) (hgrid : shape.rows ≤ maxGridXBlocks)
    (havailable : family.fusedAvailable operator.fusedName shape.cols = true) :
    LaunchQueue.Returns RowLaunch.WithinGrid
      (operator.enqueueFused math family input output shape) := by
  have hlimit := RowFamily.fusedAvailable_eq_true_iff.1 havailable
  cases operator <;>
    exact RowFamily.enqueueFused_returns hrows hcols (RowFamily.validateShapes_eq_ok_iff.2 hshape)
      hgrid hlimit

omit operator math input output in
/-- The two launches of a norm. -/
private theorem norm_submits {name message : String} {maxRows : ℕ}
    {rowKernel elementKernel : (blockDim blockIdx lane : ℕ) → RowThread α Unit} :
    LaunchQueue.Submits (do
      Fallible.ofExcept (RowFamily.validateExecution name shape maxRows)
      if shape.rows = 0 ∨ shape.cols = 0 then pure ⟨⟩
      else do
        let scratch := RowFamily.checkScratch shape.rows maxRows message
        family.launchRowReduction name shape.rows scratch rowKernel
        family.launchElementwise name shape.rows shape.cols elementKernel)
      [⟨shape.rows, family.blockSize, family.blockSize * 4, rowKernel family.blockSize⟩,
        ⟨shape.rows * shape.cols ⌈/⌉ family.blockSize, family.blockSize, 0,
          elementKernel family.blockSize⟩] := by
  have hempty : ¬ (shape.rows = 0 ∨ shape.cols = 0) := by omega
  refine LaunchQueue.Submits.ofExcept_bind fun _ _ => ?_
  rw [if_neg hempty]
  exact (family.launchRowReduction_submits name shape.rows _ rowKernel).bind fun _ =>
    family.launchElementwise_submits _ _ _ _

omit operator math input output in
private theorem norm_returns {name message : String} {maxRows : ℕ}
    {rowKernel elementKernel : (blockDim blockIdx lane : ℕ) → RowThread α Unit}
    (hshape : shape.Holds) (hle : shape.rows ≤ maxRows) (hgrid : shape.rows ≤ maxGridXBlocks)
    (helements : shape.rows * shape.cols ⌈/⌉ family.blockSize ≤ maxGridXBlocks) :
    LaunchQueue.Returns RowLaunch.WithinGrid (do
      Fallible.ofExcept (RowFamily.validateExecution name shape maxRows)
      if shape.rows = 0 ∨ shape.cols = 0 then pure ⟨⟩
      else do
        let scratch := RowFamily.checkScratch shape.rows maxRows message
        family.launchRowReduction name shape.rows scratch rowKernel
        family.launchElementwise name shape.rows shape.cols elementKernel) := by
  have hempty : ¬ (shape.rows = 0 ∨ shape.cols = 0) := by omega
  refine LaunchQueue.Returns.ofExcept_bind (RowFamily.validateExecution_eq_ok_iff.2
    ⟨RowFamily.validateShapes_eq_ok_iff.2 hshape, hle⟩) ?_
  rw [if_neg hempty]
  exact (RowFamily.launchRowReduction_returns hgrid (RowFamily.checkScratch_eq_ok hle)).bind
    fun _ => RowFamily.launchElementwise_returns hshape.1 (Nat.mul_pos hrows hcols) helements

theorem enqueueStaged_submits {maxRows : ℕ} :
    LaunchQueue.Submits (operator.enqueueStaged math family input output shape maxRows)
      (operator.stagedPlan math family input output shape) := by
  have hempty : ¬ (shape.rows = 0 ∨ shape.cols = 0) := by omega
  cases operator with
  | softmax =>
    refine LaunchQueue.Submits.ofExcept_bind fun _ _ => ?_
    rw [if_neg hempty]
    exact (family.launchRowReduction_submits _ _ _ _).bind fun _ =>
      (family.launchElementwise_submits _ _ _ _).bind fun _ =>
        (family.launchRowReduction_submits _ _ _ _).bind fun _ =>
          family.launchElementwise_submits _ _ _ _
  | layerNorm epsilon gamma beta => exact norm_submits hrows hcols
  | rmsNorm epsilon gamma => exact norm_submits hrows hcols

theorem enqueueStaged_returns {maxRows : ℕ} (hshape : shape.Holds) (hle : shape.rows ≤ maxRows)
    (hgrid : shape.rows ≤ maxGridXBlocks)
    (helements : shape.rows * shape.cols ⌈/⌉ family.blockSize ≤ maxGridXBlocks) :
    LaunchQueue.Returns RowLaunch.WithinGrid
      (operator.enqueueStaged math family input output shape maxRows) := by
  have hempty : ¬ (shape.rows = 0 ∨ shape.cols = 0) := by omega
  have hpos : 0 < shape.rows * shape.cols := Nat.mul_pos hrows hcols
  cases operator with
  | softmax =>
    refine LaunchQueue.Returns.ofExcept_bind (RowFamily.validateExecution_eq_ok_iff.2
      ⟨RowFamily.validateShapes_eq_ok_iff.2 hshape, hle⟩) ?_
    rw [if_neg hempty]
    exact (RowFamily.launchRowReduction_returns hgrid rfl).bind fun _ =>
      (RowFamily.launchElementwise_returns hshape.1 hpos helements).bind fun _ =>
        (RowFamily.launchRowReduction_returns hgrid rfl).bind fun _ =>
          RowFamily.launchElementwise_returns hshape.1 hpos helements
  | layerNorm epsilon gamma beta => exact norm_returns hrows hcols hshape hle hgrid helements
  | rmsNorm epsilon gamma => exact norm_returns hrows hcols hshape hle hgrid helements

theorem dispatched_submits (allocate : ℕ → Except NnisError Unit)
    (synchronize : Except NnisError PUnit) :
    LaunchQueue.Submits
      (operator.dispatched math family input output shape allocate synchronize)
      (operator.dispatchedPlan math family input output shape) := by
  rw [dispatched_eq, RowFamily.dispatched, dispatchedPlan]
  split_ifs with havailable
  · exact (enqueueFused_submits hrows hcols).bind_ofExcept
  · exact .ofExcept_bind fun _ _ => (enqueueStaged_submits hrows hcols).bind_ofExcept

theorem dispatched_returns {allocate : ℕ → Except NnisError Unit}
    {synchronize : Except NnisError PUnit} (hshape : shape.Holds)
    (hgrid : shape.rows ≤ maxGridXBlocks)
    (helements : shape.rows * shape.cols ⌈/⌉ family.blockSize ≤ maxGridXBlocks)
    (hallocate : allocate shape.rows = .ok ⟨⟩) (hsynchronize : synchronize = .ok ⟨⟩) :
    LaunchQueue.Returns RowLaunch.WithinGrid
      (operator.dispatched math family input output shape allocate synchronize) := by
  rw [dispatched_eq, RowFamily.dispatched]
  split_ifs with havailable
  · exact (enqueueFused_returns hrows hcols hshape hgrid havailable).bind fun _ =>
      .ofExcept hsynchronize
  · exact .ofExcept_bind hallocate ((enqueueStaged_returns hrows hcols hshape le_rfl hgrid
      helements).bind fun _ => .ofExcept hsynchronize)

end RowOperator

/-! ### The launches of the two paths -/

/-- Launches that write each element a number of times that is at most one. -/
def RowLaunch.Counts (output : RowBuffer) (count : ℕ) : List (RowLaunch α) → List ℕ → Prop :=
  List.Forall₂ fun launch n => n ≤ 1 ∧ ∀ o < count, launch.Writes (.global output o) n

theorem RowLaunch.Counts.planWrites {output : RowBuffer} {count : ℕ} {plan : List (RowLaunch α)}
    {counts : List ℕ} (h : Counts output count plan counts) {o : ℕ} (ho : o < count) :
    PlanWrites (.global output o) plan counts.sum := by
  induction h with
  | nil => exact rfl
  | cons hlaunch _ ih => exact ⟨_, _, hlaunch.2 o ho, ih, List.sum_cons⟩

theorem RowLaunch.Counts.once {output : RowBuffer} {count : ℕ} {plan : List (RowLaunch α)}
    {counts : List ℕ} (h : Counts output count plan counts) {launch : RowLaunch α}
    (hlaunch : launch ∈ plan) :
    ∃ n ≤ 1, ∀ o < count, launch.Writes (.global output o) n := by
  induction h with
  | nil => cases hlaunch
  | cons hfirst _ ih =>
    rcases List.mem_cons.1 hlaunch with rfl | hrest
    · exact ⟨_, hfirst⟩
    · exact ih hrest

theorem RowLaunch.PlanComputes.of_counts {input output : RowBuffer} {count : ℕ}
    {result : (ℕ → α) → ℕ → α} {plan : List (RowLaunch α)} (counts : List ℕ)
    (hleads : ∀ (x : ℕ → α) (memory : RowCell → α), (∀ i < count, memory (.global input i) = x i) →
      PlanLeads plan memory (RowResult input output count (result x) memory))
    (hcounts : Counts output count plan counts) :
    PlanComputes input output count result counts.sum plan where
  runs memory := (hleads (fun i => memory (.global input i)) memory fun _ _ => rfl).1
  computes x memory memory' hx := (hleads x memory hx).2 memory'
  once launch hlaunch o ho := by
    obtain ⟨n, hle, hwrites⟩ := hcounts.once hlaunch
    exact ⟨n, hle, hwrites o ho⟩
  writes _ ho := hcounts.planWrites ho

namespace RowOperator

section Computes

variable {math : RowMath α} {family : RowFamily} {input output : RowBuffer} {shape : RowShape}

/-- One launch that computes a function and writes each element once. -/
private theorem single_computes {count : ℕ} {result : (ℕ → α) → ℕ → α} {launch : RowLaunch α}
    (hleads : ∀ (x : ℕ → α) (memory : RowCell → α), (∀ i < count, memory (.global input i) = x i) →
      RowLaunch.PlanLeads [launch] memory (RowResult input output count (result x) memory))
    (hwrites : ∀ o < count, launch.Writes (.global output o) 1) :
    RowLaunch.PlanComputes input output count result 1 [launch] :=
  .of_counts [1] hleads (.cons ⟨le_rfl, hwrites⟩ .nil)

/-- The fused path. -/
theorem fusedPlan_computes (operator : RowOperator α) (hcols : 0 < shape.cols) :
    RowLaunch.PlanComputes input output (shape.rows * shape.cols)
      (operator.result math family.blockSize shape.cols) 1
      (operator.fusedPlan math family input output shape) := by
  have hwidth := family.blockSize_pos
  cases operator with
  | softmax =>
    refine single_computes (fun x memory hx => leads_fused fun row hrow value hvalue => ?_)
      fun o ho => writes_fused ho hwidth fun row lane hlane => ?_
    · refine softmaxRowFused_effect math hwidth (fun i hi => hx _ (row_lt hrow hi)) fun i hi => ?_
      rw [hvalue i hi]
      exact rowwise_eq hi
    · exact writes_stageRow (writes_fusedReduction (fun _ _ => rfl) fun maximum =>
        writes_fusedReduction
          (fun i => writes_of_shared ⟨trivial, fun _ => ⟨⟨i, rfl⟩, trivial⟩⟩)
          fun sum => writes_storeRow hlane hcols)
  | layerNorm epsilon gamma beta =>
    refine single_computes (fun x memory hx => leads_fused fun row hrow value hvalue => ?_)
      fun o ho => writes_fused ho hwidth fun row lane hlane => ?_
    · refine layernormRowFused_effect math hwidth (fun i hi => hx _ (row_lt hrow hi)) epsilon gamma
        beta fun i hi => ?_
      rw [hvalue i hi]
      exact rowwise_eq hi
    · exact writes_stageRow (writes_fusedReduction (fun _ _ => rfl) fun mean =>
        writes_fusedReduction
          (fun i => writes_of_shared ⟨trivial, fun _ => ⟨⟨i, rfl⟩, trivial⟩⟩)
          fun total => writes_storeRow hlane hcols)
  | rmsNorm epsilon gamma =>
    refine single_computes (fun x memory hx => leads_fused fun row hrow value hvalue => ?_)
      fun o ho => writes_fused ho hwidth fun row lane hlane => ?_
    · refine rmsnormRowFused_effect math hwidth (fun i hi => hx _ (row_lt hrow hi)) epsilon gamma
        fun i hi => ?_
      rw [hvalue i hi]
      exact rowwise_eq hi
    · exact writes_stageRow (writes_fusedReduction (fun _ _ => rfl) fun total =>
        writes_storeRow hlane hcols)

/-- The pipeline. -/
theorem stagedPlan_computes (operator : RowOperator α) (hcols : 0 < shape.cols)
    (hinput : input = .inputMatrix ∨ input = .outputMatrix) :
    RowLaunch.PlanComputes input .outputMatrix (shape.rows * shape.cols)
      (operator.result math family.blockSize shape.cols) operator.stagedWrites
      (operator.stagedPlan math family input .outputMatrix shape) := by
  have hwidth := family.blockSize_pos
  have hcolumn (column : RowBuffer) (hne : column ≠ .inputMatrix ∧ column ≠ .outputMatrix) :
      input ≠ column := by
    rintro rfl
    rcases hinput with rfl | rfl
    · exact hne.1 rfl
    · exact hne.2 rfl
  have hown (o i : ℕ) (v : α) : (store (.global .outputMatrix i) v).Writes
      (.global .outputMatrix o) (if i = o then 1 else 0) := by
    have hstore := @Thread.writes_store RowCell (fun _ => α) _ (.global .outputMatrix o)
      (.global .outputMatrix i) v
    simp only [RowCell.global.injEq, true_and] at hstore
    exact hstore
  cases operator with
  | softmax =>
    have hdistinct : RowBuffer.outputMatrix ≠ .rowScalars := fun h => by cases h
    refine .of_counts [0, 1, 0, 1] (fun x memory hx => leads_softmaxRows hwidth le_rfl
      (hcolumn .rowScalars ⟨(fun h => by cases h), fun h => by cases h⟩) hdistinct hx) ?_
    refine .cons ⟨zero_le_one, fun o _ => ?_⟩ (.cons ⟨le_rfl, fun o ho => ?_⟩
      (.cons ⟨zero_le_one, fun o _ => ?_⟩ (.cons ⟨le_rfl, fun o ho => ?_⟩ .nil)))
    · exact RowLaunch.writes_zero fun _ _ _ _ =>
        writes_rowReduction (fun h => by cases h) fun _ _ => rfl
    · exact writes_elementwise hwidth le_rfl ho fun i value maximum => hown o i _
    · exact RowLaunch.writes_zero fun _ _ _ _ =>
        writes_rowReduction (fun h => by cases h) fun _ _ => rfl
    · exact writes_elementwise hwidth le_rfl ho fun i value total => hown o i _
  | layerNorm epsilon gamma beta =>
    have hcolumns : input ∉ ({.rowMeans, .rowVars} : Set RowBuffer) := by
      rintro (heq | heq)
      · exact hcolumn .rowMeans ⟨(fun h => by cases h), fun h => by cases h⟩ heq
      · exact hcolumn .rowVars ⟨(fun h => by cases h), fun h => by cases h⟩ heq
    have hdistinct : RowBuffer.outputMatrix ∉ ({.rowMeans, .rowVars} : Set RowBuffer) := by
      rintro (heq | heq) <;> cases heq
    refine .of_counts [0, 1] (fun x memory hx => leads_layerNormRows hwidth hcols le_rfl hcolumns
      hdistinct epsilon gamma beta hx) ?_
    refine .cons ⟨zero_le_one, fun o _ => ?_⟩ (.cons ⟨le_rfl, fun o ho => ?_⟩ .nil)
    · exact RowLaunch.writes_zero fun _ _ _ _ =>
        writes_rowStats (fun h => by cases h) fun h => by cases h
    · exact writes_elementwise hwidth le_rfl ho fun i total value mean => hown o i _
  | rmsNorm epsilon gamma =>
    have hdistinct : RowBuffer.outputMatrix ≠ .rowSquares := fun h => by cases h
    have hsquares := hcolumn .rowSquares ⟨(fun h => by cases h), fun h => by cases h⟩
    refine .of_counts [0, 1]
      (fun x memory hx => leads_rmsNormRows hwidth le_rfl hsquares hdistinct epsilon gamma hx) ?_
    refine .cons ⟨zero_le_one, fun o _ => ?_⟩ (.cons ⟨le_rfl, fun o ho => ?_⟩ .nil)
    · exact RowLaunch.writes_zero fun _ _ _ _ =>
        writes_rowReduction (fun h => by cases h) fun _ _ => rfl
    · exact writes_elementwise hwidth le_rfl ho fun i total value => hown o i _

end Computes

/-! ### The path that is chosen -/

/-- Launches added to a stream by a call: all of a plan if it returns, which compute a function of
the input, and a beginning of them if it fails. -/
def Submitted (input output : RowBuffer) (count : ℕ) (result : (ℕ → α) → ℕ → α) (times : ℕ)
    (call : Fallible (RowQueue α) NnisError PUnit) : Prop :=
  ∃ plan, RowLaunch.PlanComputes input output count result times plan ∧ ∀ queue,
    ∃ r part, call.run queue = (r, queue.extend part) ∧ part <+: plan ∧ (r = .ok ⟨⟩ → part = plan)

/-- A call submits its plan. -/
private theorem Submitted.of_submits {input output : RowBuffer} {count : ℕ}
    {result : (ℕ → α) → ℕ → α} {times : ℕ} {call : Fallible (RowQueue α) NnisError PUnit}
    {plan : List (RowLaunch α)}
    (hplan : RowLaunch.PlanComputes input output count result times plan)
    (h : LaunchQueue.Submits call plan) : Submitted input output count result times call := by
  refine ⟨plan, hplan, fun queue => ?_⟩
  rcases hrun : call.run queue with ⟨e | _, queue'⟩
  · obtain ⟨part, hpart, rfl⟩ := (h queue).error rfl hrun
    exact ⟨_, part, rfl, hpart, nofun⟩
  · obtain rfl := (h queue).ok rfl hrun
    exact ⟨_, plan, rfl, List.prefix_rfl, fun _ => rfl⟩

/-- Row softmax, layer norm and RMS norm do not depend on their path. Whatever the fused path, the
pipeline or the dispatched call submits computes the row function of the operator, with the blocks
and the threads of a phase in any order, and also in place. The fused path writes each element once.
The dispatched call returns for matrices of the shape whose grids are within the limit, on a driver
that accepts such launches, when the workspace is allocated and the wait succeeds. -/
theorem dispatch_transparent (math : RowMath α) (operator : RowOperator α) (family : RowFamily)
    {input : RowBuffer} (hinput : input = .inputMatrix ∨ input = .outputMatrix) (shape : RowShape)
    (hrows : 0 < shape.rows) (hcols : 0 < shape.cols) (maxRows : ℕ)
    (allocate : ℕ → Except NnisError Unit) (synchronize : Except NnisError PUnit) :
    let count := shape.rows * shape.cols
    let result := operator.result math family.blockSize shape.cols
    Submitted input .outputMatrix count result 1
      (operator.enqueueFused math family input .outputMatrix shape) ∧
    Submitted input .outputMatrix count result operator.stagedWrites
      (operator.enqueueStaged math family input .outputMatrix shape maxRows) ∧
    Submitted input .outputMatrix count result
      (if family.fusedAvailable operator.fusedName shape.cols then 1 else operator.stagedWrites)
      (operator.dispatched math family input .outputMatrix shape allocate synchronize) ∧
    (shape.Holds → shape.rows ≤ maxGridXBlocks → count ⌈/⌉ family.blockSize ≤ maxGridXBlocks →
      allocate shape.rows = .ok ⟨⟩ → synchronize = .ok ⟨⟩ →
      ∀ queue : RowQueue α, queue.Accepts RowLaunch.WithinGrid → ∃ queue',
        (operator.dispatched math family input .outputMatrix shape allocate synchronize).run queue =
          (.ok ⟨⟩, queue')) := by
  intro count result
  have hfused := @fusedPlan_computes _ math family input .outputMatrix shape operator hcols
  have hstaged := @stagedPlan_computes _ math family input shape operator hcols hinput
  refine ⟨.of_submits hfused (enqueueFused_submits hrows hcols),
    .of_submits hstaged (enqueueStaged_submits hrows hcols),
    .of_submits ?_ (dispatched_submits hrows hcols allocate synchronize),
    fun hshape hgrid helements hallocate hsynchronize queue haccepts => ?_⟩
  · rw [dispatchedPlan]
    split_ifs
    · exact hfused
    · exact hstaged
  · obtain ⟨queue', hrun, -⟩ := dispatched_returns hrows hcols hshape hgrid helements hallocate
      hsynchronize queue haccepts
    exact ⟨queue', hrun⟩

end RowOperator

/-! ### Exact arithmetic -/

/-- Exact arithmetic, with an exponential function and a reciprocal square root. -/
noncomputable def RowMath.ofEReal (expf rsqrtf : EReal → EReal) : RowMath EReal where
  negInf := ⊥
  zero := 0
  one := 1
  ofCols cols := cols
  fmaxf := max
  add := (· + ·)
  sub := (· - ·)
  mul := (· * ·)
  div := (· / ·)
  fmaf a b c := a * b + c
  expf
  rsqrtf
  div_ofCols value cols _ := by
    rw [div_eq_mul_inv, one_div]

section Exact

/-- Exponentials of the extended reals, and reciprocals of the square roots of their real parts. -/
private noncomputable def exactMath : RowMath EReal :=
  .ofEReal (fun x => (x.exp : EReal)) fun x => ((Real.sqrt x.toReal)⁻¹ : ℝ)

/-- Blocks of two threads, and shared memory for two columns. -/
private def pairFamily : RowFamily where
  blockSize := 2
  isPowerOfTwo := ⟨1, rfl⟩
  sharedMemory_lt := by decide
  fusedAttributes := .ok 16
  fusedAttributes_lt limit h := Except.ok.inj h ▸ by decide

/-- A stream whose driver refuses the longer grids and nothing else. -/
private def pairQueue : RowQueue EReal := .fresh fun _ launch =>
  if launch.gridSize ≤ maxGridXBlocks then none else some (.native "cuLaunchKernel failed")

private theorem pairQueue_accepts : pairQueue.Accepts RowLaunch.WithinGrid := fun _ _ h => if_pos h

theorem RowOperator.dispatch_transparent_inPlace : ∃ queue,
    (RowOperator.softmax.dispatched exactMath pairFamily .outputMatrix .outputMatrix ⟨6, 6, 3, 2⟩
        (fun _ => .ok ⟨⟩) (.ok ⟨⟩)).run pairQueue = (.ok ⟨⟩, queue) ∧
      RowLaunch.PlanComputes .outputMatrix .outputMatrix 6
        (RowOperator.softmax.result exactMath 2 2) 1 queue.launches := by
  obtain ⟨-, -, hsubmitted, hreturns⟩ := RowOperator.softmax.dispatch_transparent exactMath
    pairFamily (.inr rfl) ⟨6, 6, 3, 2⟩ (by decide) (by decide) 0 (fun _ => .ok ⟨⟩) (.ok ⟨⟩)
  obtain ⟨queue, hrun⟩ := hreturns ⟨by decide, rfl, rfl⟩ (by decide) (by decide) rfl rfl pairQueue
    pairQueue_accepts
  obtain ⟨plan, hplan, hcall⟩ := hsubmitted
  obtain ⟨r, part, hrun', -, hall⟩ := hcall pairQueue
  rw [hrun, Prod.mk.injEq] at hrun'
  obtain ⟨rfl, rfl⟩ := hrun'
  obtain rfl := hall rfl
  have havailable : pairFamily.fusedAvailable (@RowOperator.fusedName EReal .softmax) 2 := by
    rw [RowFamily.fusedAvailable_eq_true_iff]
    exact ⟨16, rfl, le_rfl⟩
  rw [havailable, if_pos rfl] at hplan
  exact ⟨_, hrun, hplan⟩

/-- The pipeline of row softmax writes an element twice. -/
theorem RowOperator.stagedSoftmax_writes_twice : ∃ queue,
    (RowOperator.softmax.enqueueStaged exactMath pairFamily .inputMatrix .outputMatrix ⟨1, 1, 1, 1⟩
        1).run pairQueue = (.ok ⟨⟩, queue) ∧
      ¬ RowLaunch.PlanWrites (.global .outputMatrix 0) queue.launches 1 := by
  have hrows : 0 < (⟨1, 1, 1, 1⟩ : RowShape).rows := Nat.one_pos
  have hcols : 0 < (⟨1, 1, 1, 1⟩ : RowShape).cols := Nat.one_pos
  have htwo := (@RowOperator.stagedPlan_computes _ exactMath pairFamily .inputMatrix ⟨1, 1, 1, 1⟩
    .softmax hcols (.inl rfl)).writes 0 Nat.one_pos
  obtain ⟨queue, hrun, -⟩ := @RowOperator.enqueueStaged_returns _ .softmax exactMath pairFamily
    .inputMatrix .outputMatrix ⟨1, 1, 1, 1⟩ hrows hcols 1 ⟨by decide, rfl, rfl⟩ le_rfl (by decide)
    (by decide) pairQueue pairQueue_accepts
  obtain rfl := (RowOperator.enqueueStaged_submits hrows hcols pairQueue).ok rfl hrun
  refine ⟨_, hrun, fun hone => ?_⟩
  rw [LaunchQueue.launches_extend] at hone
  change RowLaunch.PlanWrites _ ([] ++ _) 1 at hone
  rw [List.nil_append] at hone
  exact absurd (hone.unique htwo) (by decide)

end Exact

end NNIS
