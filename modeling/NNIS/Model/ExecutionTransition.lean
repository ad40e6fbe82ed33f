import NNIS.Model.F16ReferenceRuntime
import NNIS.Semantics.Checked

/-!
# The rebuild transition

The one-shot coordinator of `nnis-model/src/execution_transition.rs`, which moves a materialized F16
model to another execution plan. The runtime is the environment: its operations act on a state of
their own and may answer anything. The calls made and their answers are recorded, the earliest
first.

## Main definitions

* `F16ReferenceExecutionPlan`, `F16RebuildMemoryBudgetV1`, `F16RebuildTransitionV1`,
  `F16RebuildTransitionReceiptV1`.
* `F16RebuildTransitionRuntime`, `TransitionEvent`, `RebuildExecution`.
* `F16RebuildTransitionV1.new`, `F16RebuildTransitionV1.validatePreconditions`,
  `RebuildExecution.execute`, `RebuildExecution.rollback`.
-/

set_option autoImplicit false

namespace NNIS

/-! ### Plans -/

inductive F16ReferenceStorage
  | f16
  deriving DecidableEq

inductive F16ReferenceAccumulator
  | f32
  deriving DecidableEq

inductive F16ReferenceLogits
  | f32
  deriving DecidableEq

/-- Versioned, explicit numeric contract of the F16 reference path. -/
structure F16ReferencePlan where
  schemaVersion : UInt32
  weightStorage : F16ReferenceStorage
  activationStorage : F16ReferenceStorage
  kvStorage : F16ReferenceStorage
  projectionAccumulator : F16ReferenceAccumulator
  attentionAccumulator : F16ReferenceAccumulator
  logitsStorage : F16ReferenceLogits
  deriving DecidableEq

/-- The only F16 reference contract of schema v1. -/
def F16ReferencePlan.edgeLlmV0100Alignment : F16ReferencePlan where
  schemaVersion := 1
  weightStorage := .f16
  activationStorage := .f16
  kvStorage := .f16
  projectionAccumulator := .f32
  attentionAccumulator := .f32
  logitsStorage := .f32

def f16ReferenceExecutionPlanVersion : UInt32 := 1

/-- Versioned physical execution plan. -/
structure F16ReferenceExecutionPlan where
  schemaVersion : UInt32
  numeric : F16ReferencePlan
  projectionLayout : F16ReferenceProjectionLayout
  deriving DecidableEq

namespace F16ReferenceExecutionPlan

/-- The qualified physical projection layout for a numeric plan. -/
def reference (numeric : F16ReferencePlan) : F16ReferenceExecutionPlan :=
  ⟨f16ReferenceExecutionPlanVersion, numeric, .knReference⟩

def edgeLlmV0100TransposedProjectionCandidate : F16ReferenceExecutionPlan :=
  ⟨f16ReferenceExecutionPlanVersion, .edgeLlmV0100Alignment, .nkTransposedCandidate⟩

def edgeLlmV0100TransposedFusedGroupsCandidate : F16ReferenceExecutionPlan :=
  ⟨f16ReferenceExecutionPlanVersion, .edgeLlmV0100Alignment, .nkTransposedFusedGroupsCandidate⟩

end F16ReferenceExecutionPlan

/-! ### Requirements -/

def nnisF16ExecutionTransitionRequirementsVersion : UInt32 := 1

def nnisF16RebuildTransitionVersion : UInt32 := 1

/-- How a materialized model can move between execution plans. -/
inductive F16ExecutionTransitionMode
  | modelRebuildRequired
  deriving DecidableEq

/-- Versioned transition requirements. -/
structure F16ExecutionTransitionRequirementsV1 where
  schemaVersion : UInt32
  transitionMode : F16ExecutionTransitionMode
  sourceWeightsRequired : Bool
  activeSessionsPreserved : Bool
  kvStatePreserved : Bool
  liveTransitionAuthorized : Bool
  deriving DecidableEq

namespace F16ExecutionTransitionRequirementsV1

/-- The requirements of every schema-v1 execution plan. -/
def modelRebuildRequired : F16ExecutionTransitionRequirementsV1 where
  schemaVersion := nnisF16ExecutionTransitionRequirementsVersion
  transitionMode := .modelRebuildRequired
  sourceWeightsRequired := true
  activeSessionsPreserved := false
  kvStatePreserved := false
  liveTransitionAuthorized := false

def validate (requirements : F16ExecutionTransitionRequirementsV1) : Except NnisError PUnit :=
  if requirements.schemaVersion ≠ nnisF16ExecutionTransitionRequirementsVersion then
    .error (.unsupported
      (s!"unsupported F16 execution-transition requirements schema " ++
        s!"{requirements.schemaVersion}; expected {nnisF16ExecutionTransitionRequirementsVersion}"))
  else
    match requirements.transitionMode with
    | .modelRebuildRequired =>
      if !requirements.sourceWeightsRequired || requirements.activeSessionsPreserved ||
          requirements.kvStatePreserved || requirements.liveTransitionAuthorized then
        .error (.invalidInput
          ("schema-v1 F16 model-rebuild transition requirements must require source weights, " ++
            "invalidate sessions/KV state, and forbid live in-place transition"))
      else pure ⟨⟩

end F16ExecutionTransitionRequirementsV1

/-- The requirements for changing to a plan. -/
def F16ReferenceExecutionPlan.transitionRequirements (_ : F16ReferenceExecutionPlan) :
    F16ExecutionTransitionRequirementsV1 :=
  .modelRebuildRequired

/-! ### Memory -/

/-- Explicit memory admission envelope of one transition. -/
structure F16RebuildMemoryBudgetV1 where
  schemaVersion : UInt32
  sourceResidentOwnedBytes : ℕ
  targetPeakOwnedBytes : ℕ
  transitionBudgetBytes : ℕ
  deriving DecidableEq

namespace F16RebuildMemoryBudgetV1

variable (budget : F16RebuildMemoryBudgetV1)

def requiredDoubleResidentBytes : Except NnisError ℕ :=
  match checkedAdd budget.sourceResidentOwnedBytes budget.targetPeakOwnedBytes with
  | some required => pure required
  | none => .error (.invalidInput
      "F16 rebuild double-residency byte accounting overflowed u64")

def headroomBytes : Except NnisError ℕ := do
  let required ← budget.requiredDoubleResidentBytes
  if required ≤ budget.transitionBudgetBytes then pure (budget.transitionBudgetBytes - required)
  else .error (.invalidInput
    (s!"F16 rebuild requires {required} owned bytes while the source remains resident, " ++
      s!"exceeding transition budget {budget.transitionBudgetBytes}"))

def validate : Except NnisError PUnit :=
  if budget.schemaVersion ≠ nnisF16RebuildTransitionVersion then
    .error (.unsupported
      (s!"unsupported F16 rebuild memory-budget schema {budget.schemaVersion}; " ++
        s!"expected {nnisF16RebuildTransitionVersion}"))
  else if budget.sourceResidentOwnedBytes = 0 ∨ budget.targetPeakOwnedBytes = 0 then
    .error (.invalidInput
      "F16 rebuild memory admission requires non-zero source-resident and target-peak owned bytes")
  else do
    let _ ← budget.headroomBytes
    pure ⟨⟩

end F16RebuildMemoryBudgetV1

/-! ### The transition -/

/-- Observable state of the transition. -/
inductive F16RebuildTransitionPhase
  | prepared
  | quiescing
  | rebuilding
  | verifying
  | invalidatingSessionState
  | committing
  | committed
  | rollingBack
  | rolledBack
  deriving DecidableEq

/-- Evidence returned only after a verified candidate has been committed. -/
structure F16RebuildTransitionReceiptV1 where
  schemaVersion : UInt32
  sourcePlan : F16ReferenceExecutionPlan
  targetPlan : F16ReferenceExecutionPlan
  requiredDoubleResidentBytes : ℕ
  budgetHeadroomBytes : ℕ
  sourceRetainedUntilCommit : Bool
  sessionsInvalidated : Bool
  kvStateReset : Bool
  candidateVerified : Bool
  committed : Bool
  liveTransitionClaimed : Bool
  deriving DecidableEq

def F16RebuildTransitionReceiptV1.validate (receipt : F16RebuildTransitionReceiptV1) :
    Except NnisError PUnit :=
  if receipt.schemaVersion ≠ nnisF16RebuildTransitionVersion then
    .error (.unsupported
      (s!"unsupported F16 rebuild receipt schema {receipt.schemaVersion}; " ++
        s!"expected {nnisF16RebuildTransitionVersion}"))
  else if receipt.sourcePlan = receipt.targetPlan ∨ receipt.sourceRetainedUntilCommit = false ∨
      receipt.sessionsInvalidated = false ∨ receipt.kvStateReset = false ∨
      receipt.candidateVerified = false ∨ receipt.committed = false ∨
      receipt.liveTransitionClaimed = true then
    .error (.invalidInput
      "F16 rebuild receipt violates the verified rebuild, state-reset, or no-hot-switch contract")
  else pure ⟨⟩

/-- One-shot, fail-closed coordinator. Its fields are public. -/
structure F16RebuildTransitionV1 where
  schemaVersion : UInt32
  sourcePlan : F16ReferenceExecutionPlan
  targetPlan : F16ReferenceExecutionPlan
  memoryBudget : F16RebuildMemoryBudgetV1
  phase : F16RebuildTransitionPhase
  deriving DecidableEq

namespace F16RebuildTransitionV1

/-- Revalidate every field before the runtime can be mutated. -/
def validatePreconditions (transition : F16RebuildTransitionV1) : Except NnisError PUnit :=
  if transition.schemaVersion ≠ nnisF16RebuildTransitionVersion then
    .error (.unsupported
      (s!"unsupported F16 rebuild transaction schema {transition.schemaVersion}; " ++
        s!"expected {nnisF16RebuildTransitionVersion}"))
  else if transition.phase ≠ .prepared then
    .error (.invalidInput "F16 rebuild transaction must be in prepared state")
  else if transition.sourcePlan.schemaVersion ≠ f16ReferenceExecutionPlanVersion ∨
      transition.targetPlan.schemaVersion ≠ f16ReferenceExecutionPlanVersion then
    .error (.unsupported
      "F16 rebuild requires supported source and target execution-plan schemas")
  else if transition.sourcePlan = transition.targetPlan then
    .error (.invalidInput "F16 rebuild source and target execution plans must differ")
  else do
    transition.targetPlan.transitionRequirements.validate
    transition.memoryBudget.validate

def new (sourcePlan targetPlan : F16ReferenceExecutionPlan)
    (memoryBudget : F16RebuildMemoryBudgetV1) : Except NnisError F16RebuildTransitionV1 := do
  let transaction : F16RebuildTransitionV1 :=
    { schemaVersion := nnisF16RebuildTransitionVersion
      sourcePlan
      targetPlan
      memoryBudget
      phase := .prepared }
  transaction.validatePreconditions
  pure transaction

/-- The receipt of a committed transition. -/
def issueReceipt (transition : F16RebuildTransitionV1) :
    Except NnisError F16RebuildTransitionReceiptV1 := do
  let required ← transition.memoryBudget.requiredDoubleResidentBytes
  let headroom ← transition.memoryBudget.headroomBytes
  let receipt : F16RebuildTransitionReceiptV1 :=
    { schemaVersion := nnisF16RebuildTransitionVersion
      sourcePlan := transition.sourcePlan
      targetPlan := transition.targetPlan
      requiredDoubleResidentBytes := required
      budgetHeadroomBytes := headroom
      sourceRetainedUntilCommit := true
      sessionsInvalidated := true
      kvStateReset := true
      candidateVerified := true
      committed := true
      liveTransitionClaimed := false }
  receipt.validate
  pure receipt

end F16RebuildTransitionV1

/-! ### The runtime -/

/-- Runtime-owned operations, over the runtime's own state `σ` and its candidates `κ`. -/
structure F16RebuildTransitionRuntime (σ κ : Type) where
  beginQuiescence : Fallible σ NnisError PUnit
  activeSessionCount : σ → ℕ × σ
  sourceWeightsAvailable : σ → Bool × σ
  rebuildCandidate : F16ReferenceExecutionPlan → Fallible σ NnisError κ
  verifyCandidate : κ → Fallible σ NnisError PUnit
  invalidateSessionsAndKv : Fallible σ NnisError PUnit
  commitCandidate : κ → Fallible σ NnisError PUnit
  rollbackToSource : Fallible σ NnisError PUnit

/-- A call of the runtime with its answer. -/
inductive TransitionEvent (κ : Type)
  | beginQuiescence (answer : Except NnisError PUnit)
  | activeSessionCount (answer : ℕ)
  | sourceWeightsAvailable (answer : Bool)
  | rebuildCandidate (targetPlan : F16ReferenceExecutionPlan) (answer : Except NnisError κ)
  | verifyCandidate (candidate : κ) (answer : Except NnisError PUnit)
  | invalidateSessionsAndKv (answer : Except NnisError PUnit)
  | commitCandidate (candidate : κ) (answer : Except NnisError PUnit)
  | rollbackToSource (answer : Except NnisError PUnit)

/-- A transition in the course of its execution: its fields, the runtime's state and the calls so
far. -/
structure RebuildExecution (σ κ : Type) where
  transition : F16RebuildTransitionV1
  runtime : σ
  events : List (TransitionEvent κ)

namespace RebuildExecution

variable {σ κ : Type}

/-- Enter a phase. -/
def enter (phase : F16RebuildTransitionPhase) :
    Fallible (RebuildExecution σ κ) NnisError PUnit :=
  .modify fun s => { s with transition := { s.transition with phase } }

/-- Call the runtime and record its answer. -/
def ask {α : Type} (operation : σ → α × σ) (event : α → TransitionEvent κ) :
    Fallible (RebuildExecution σ κ) NnisError α :=
  ⟨fun s =>
    let (answer, runtime) := operation s.runtime
    (.ok answer, { s with runtime, events := s.events ++ [event answer] })⟩

variable (runtime : F16RebuildTransitionRuntime σ κ)

/-- Return to the source after a failure. -/
def rollback (primary : NnisError) :
    Fallible (RebuildExecution σ κ) NnisError F16RebuildTransitionReceiptV1 := do
  enter .rollingBack
  let rollback ← ask runtime.rollbackToSource.run .rollbackToSource
  enter .rolledBack
  match rollback with
  | .ok _ => .fail primary
  | .error rollbackError => .fail (.invalidInput
      s!"F16 rebuild failed ({primary.text}); rollback also failed ({rollbackError.text})")

/-- Commit a verified candidate. -/
def commit (candidate : κ) :
    Fallible (RebuildExecution σ κ) NnisError F16RebuildTransitionReceiptV1 := do
  enter .committing
  match ← ask (runtime.commitCandidate candidate).run (.commitCandidate candidate) with
  | .error error => rollback runtime error
  | .ok _ => do
    enter .committed
    .ofExcept (← .get).transition.issueReceipt

/-- Invalidate the sessions and what depends on them. -/
def invalidate (candidate : κ) :
    Fallible (RebuildExecution σ κ) NnisError F16RebuildTransitionReceiptV1 := do
  enter .invalidatingSessionState
  match ← ask runtime.invalidateSessionsAndKv.run .invalidateSessionsAndKv with
  | .error error => rollback runtime error
  | .ok _ => commit runtime candidate

/-- Verify a candidate. -/
def verify (candidate : κ) :
    Fallible (RebuildExecution σ κ) NnisError F16RebuildTransitionReceiptV1 := do
  enter .verifying
  match ← ask (runtime.verifyCandidate candidate).run (.verifyCandidate candidate) with
  | .error error => rollback runtime error
  | .ok _ => invalidate runtime candidate

/-- Rebuild for the target plan. -/
def rebuild : Fallible (RebuildExecution σ κ) NnisError F16RebuildTransitionReceiptV1 := do
  enter .rebuilding
  let targetPlan := (← .get).transition.targetPlan
  match ← ask (runtime.rebuildCandidate targetPlan).run (.rebuildCandidate targetPlan) with
  | .error error => rollback runtime error
  | .ok candidate => verify runtime candidate

/-- Check that quiescence left no session and kept the source weights. -/
def checkQuiescence :
    Fallible (RebuildExecution σ κ) NnisError F16RebuildTransitionReceiptV1 := do
  let activeSessions ← ask runtime.activeSessionCount .activeSessionCount
  if activeSessions ≠ 0 then
    rollback runtime (.invalidInput
      s!"F16 rebuild quiescence left {activeSessions} active sessions")
  else do
    let available ← ask runtime.sourceWeightsAvailable .sourceWeightsAvailable
    if available = false then
      rollback runtime (.invalidInput "F16 rebuild requires source weights after quiescence")
    else rebuild runtime

/-- Run the transition. -/
def execute : Fallible (RebuildExecution σ κ) NnisError F16RebuildTransitionReceiptV1 := do
  .ofExcept (← .get).transition.validatePreconditions
  enter .quiescing
  match ← ask runtime.beginQuiescence.run .beginQuiescence with
  | .error error => rollback runtime error
  | .ok _ => checkQuiescence runtime

end RebuildExecution

end NNIS
