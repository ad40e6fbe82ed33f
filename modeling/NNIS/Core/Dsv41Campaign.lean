import Mathlib.Data.FinEnum
import Mathlib.Data.Fintype.Prod
import NNIS.Numeric.Binary
import NNIS.Semantics.Checked
import NNIS.Semantics.Outcome
import NNIS.Sequence.Distinct
import NNIS.Text.Str

/-!
# Campaign preregistration and evidence

The records and the validators of `nnis-core/src/dsv41_campaign.rs`. A preregistration carries the
outcome of its validation, so that one exists only if its fields were accepted. The texts of the
errors are the source's.

## Main definitions

* `Dsv41CampaignPreregistrationFieldsV1`, `Dsv41CampaignPreregistrationV1`,
  `Dsv41CampaignPreregistrationV1.new`.
* `Dsv41CampaignEvidenceV1`, `CampaignCellV1`, `validateCell`.
* `validateDsv41EvidenceStructure`, `validateDsv41Evidence`.
-/

set_option autoImplicit false

namespace NNIS

/-- Maximum UTF-8 bytes accepted for campaign identities and labels. -/
def maxDsv41CampaignIdBytes : ℕ := 128

/-- DSV41 runtime primitive exercised by a candidate arm. -/
inductive Dsv41PrimitiveV1
  | boundedReplay
  | crossLayerKvReuse
  | fp4E2M1Kv
  | speculativeVerification
  deriving DecidableEq

/-- The place of a primitive in the derived order. -/
def Dsv41PrimitiveV1.rank : Dsv41PrimitiveV1 → ℕ
  | boundedReplay => 0
  | crossLayerKvReuse => 1
  | fp4E2M1Kv => 2
  | speculativeVerification => 3

/-- Execution backend of a campaign. -/
inductive CampaignBackendV1
  | cpu
  | wgpu
  | legacyCudaCrossCheck
  deriving DecidableEq

/-- Exact memory metric used for every arm of one campaign. -/
inductive CampaignMemoryMetricV1
  | peakProcessRssBytes
  | peakDeviceAllocatedBytes
  | peakNnisOwnedAllocationBytes
  deriving DecidableEq

/-- Direction of the preregistered quality metric. -/
inductive QualityDirectionV1
  | higherIsBetter
  | lowerIsBetter
  deriving DecidableEq

/-- Exact model identity. -/
structure CampaignModelV1 where
  modelId : String
  revision : String
  weightsSha256 : String
  deriving DecidableEq

/-- Exact prompt-suite identity. -/
structure CampaignPromptSuiteV1 where
  suiteId : String
  suiteSha256 : String
  promptCount : UInt32
  deriving DecidableEq

/-- One preregistered campaign arm; the primitives are empty only for the dense baseline. -/
structure CampaignArmV1 where
  armId : String
  primitives : List Dsv41PrimitiveV1
  deriving DecidableEq

/-- Preregistered quality metric and caller-declared budget. -/
structure CampaignQualityMetricV1 where
  metricId : String
  direction : QualityDirectionV1
  maxRegression : F64
  deriving DecidableEq

/-- Unvalidated preregistration fields. -/
structure Dsv41CampaignPreregistrationFieldsV1 where
  campaignId : String
  model : CampaignModelV1
  promptSuite : CampaignPromptSuiteV1
  backend : CampaignBackendV1
  arms : List CampaignArmV1
  contextLengths : List UInt32
  decodeLengths : List UInt32
  repetitions : UInt32
  memoryMetric : CampaignMemoryMetricV1
  qualityMetric : CampaignQualityMetricV1
  deriving DecidableEq

/-- Which metric a cell failed to report. -/
inductive CampaignMetricV1
  | quality
  | memoryMetric
  | memoryBytes
  | decodeLatency
  | tokensPerSecond
  deriving DecidableEq

/-- The name of a metric in an error. -/
def CampaignMetricV1.name : CampaignMetricV1 → String
  | quality => "Quality"
  | memoryMetric => "MemoryMetric"
  | memoryBytes => "MemoryBytes"
  | decodeLatency => "DecodeLatency"
  | tokensPerSecond => "TokensPerSecond"

/-- Fail-closed campaign errors. -/
inductive Dsv41CampaignError
  | emptyField (field : String)
  | invalidField (field : String)
  | emptyPromptSuite
  | tooFewRepetitions (repetitions : UInt32)
  | invalidQualityBudget
  | duplicateArm (armId : String)
  | unsortedOrDuplicatePrimitives (armId : String)
  | missingDenseBaseline
  | multipleDenseBaselines
  | missingCandidateArm
  | campaignMismatch
  | dirtyWorktree
  | exactHeadCiNotGreen
  | backendMismatch
  | cellCountMismatch (expected actual : ℕ)
  | missingCell (armId : String) (contextLength decodeLength : UInt32)
  | duplicateCell (armId : String) (contextLength decodeLength : UInt32)
  | repetitionMismatch (armId : String) (expected actual : UInt32)
  | missingMetric (armId : String) (contextLength decodeLength : UInt32)
      (metric : CampaignMetricV1)
  | invalidMetric (armId : String) (contextLength decodeLength : UInt32)
      (metric : CampaignMetricV1)
  | syntheticFixtureIsNotEvidence
  deriving DecidableEq

/-- The text of an error. -/
def Dsv41CampaignError.text : Dsv41CampaignError → String
  | emptyField field => s!"{field} must not be empty"
  | invalidField field => s!"{field} is malformed"
  | emptyPromptSuite => "prompt suite must contain prompts"
  | tooFewRepetitions repetitions =>
    s!"{repetitions} repetitions preregistered, at least 2 required"
  | invalidQualityBudget => "quality regression budget must be finite and non-negative"
  | duplicateArm armId => s!"arm {armId} is declared twice"
  | unsortedOrDuplicatePrimitives armId => s!"arm {armId} primitives must be strictly increasing"
  | missingDenseBaseline => "a dense baseline arm is required"
  | multipleDenseBaselines => "only one dense baseline arm is allowed"
  | missingCandidateArm => "at least one candidate arm is required"
  | campaignMismatch => "evidence names a different campaign"
  | dirtyWorktree => "evidence was produced from a dirty worktree"
  | exactHeadCiNotGreen => "exact-head CI is missing or not green"
  | backendMismatch => "evidence backend differs from preregistration"
  | cellCountMismatch expected actual =>
    s!"evidence has {actual} cells, preregistration requires {expected}"
  | missingCell armId contextLength decodeLength =>
    s!"missing cell arm={armId} context={contextLength} decode={decodeLength}"
  | duplicateCell armId contextLength decodeLength =>
    s!"duplicate cell arm={armId} context={contextLength} decode={decodeLength}"
  | repetitionMismatch armId expected actual =>
    s!"arm {armId} ran {actual} repetitions, expected {expected}"
  | missingMetric armId contextLength decodeLength metric =>
    s!"cell arm={armId} context={contextLength} decode={decodeLength} is missing {metric.name}"
  | invalidMetric armId contextLength decodeLength metric =>
    s!"cell arm={armId} context={contextLength} decode={decodeLength} has invalid {metric.name}"
  | syntheticFixtureIsNotEvidence => "synthetic fixture records are never campaign evidence"

/-! ### Fields -/

def validateId (field value : String) : Outcome Dsv41CampaignError PUnit := do
  let trimmed := Str.trim value
  .require (trimmed ≠ "") (.emptyField field)
  .require (trimmed = value ∧ Str.len value ≤ maxDsv41CampaignIdBytes) (.invalidField field)

def validateHex (field value : String) (len : ℕ) : Outcome Dsv41CampaignError PUnit :=
  .require (Str.len value = len ∧ value.toList.all Str.isLowerHex = true) (.invalidField field)

def validateLengths (field : String) (values : List UInt32) : Outcome Dsv41CampaignError PUnit :=
  match values with
  | [] => .raise (.invalidField field)
  | first :: rest => .require (first ≠ 0 ∧ ∀ pair ∈ windows (first :: rest), pair.1 < pair.2)
      (.invalidField field)

/-! ### Preregistration -/

/-- The dense baseline and the number of candidates after one more arm. -/
def validateArm (arms : List CampaignArmV1) (state : Option String × ℕ)
    (entry : CampaignArmV1 × ℕ) : Outcome Dsv41CampaignError (Option String × ℕ) := do
  let (arm, index) := entry
  validateId "arm_id" arm.armId
  .require (∀ other ∈ arms.take index, other.armId ≠ arm.armId) (.duplicateArm arm.armId)
  .require (∀ pair ∈ windows arm.primitives, pair.1.rank < pair.2.rank)
    (.unsortedOrDuplicatePrimitives arm.armId)
  if arm.primitives = [] then
    if state.1.isSome then .raise .multipleDenseBaselines else pure (some arm.armId, state.2)
  else pure (state.1, state.2 + 1)

/-- Validate preregistration fields; the result is the dense baseline arm. -/
def Dsv41CampaignPreregistrationFieldsV1.validate (fields : Dsv41CampaignPreregistrationFieldsV1) :
    Outcome Dsv41CampaignError String := do
  validateId "campaign_id" fields.campaignId
  validateId "model_id" fields.model.modelId
  validateHex "revision" fields.model.revision 40
  validateHex "weights_sha256" fields.model.weightsSha256 64
  validateId "suite_id" fields.promptSuite.suiteId
  validateHex "suite_sha256" fields.promptSuite.suiteSha256 64
  .require (fields.promptSuite.promptCount ≠ 0) .emptyPromptSuite
  validateLengths "context_lengths" fields.contextLengths
  validateLengths "decode_lengths" fields.decodeLengths
  .require (2 ≤ fields.repetitions) (.tooFewRepetitions fields.repetitions)
  validateId "quality_metric_id" fields.qualityMetric.metricId
  let budget := fields.qualityMetric.maxRegression
  .require (budget.isFinite = true ∧ budget.lt (.zero false) = false) .invalidQualityBudget
  let (denseBaselineArm, candidates) ←
    fields.arms.zipIdx.foldlM (validateArm fields.arms) (none, 0)
  let denseBaselineArm ← .okOr denseBaselineArm .missingDenseBaseline
  .require (candidates ≠ 0) .missingCandidateArm
  pure denseBaselineArm

/-- Validated campaign preregistration. -/
structure Dsv41CampaignPreregistrationV1 extends Dsv41CampaignPreregistrationFieldsV1 where
  denseBaselineArm : String
  valid : toDsv41CampaignPreregistrationFieldsV1.validate = .ok denseBaselineArm

namespace Dsv41CampaignPreregistrationV1

/-- Validate preregistration fields, fail closed. -/
def new (fields : Dsv41CampaignPreregistrationFieldsV1) :
    Outcome Dsv41CampaignError Dsv41CampaignPreregistrationV1 :=
  match h : fields.validate with
  | .error e => .error e
  | .ok denseBaselineArm => .ok ⟨fields, denseBaselineArm, h⟩

/-- Number of required cells, in 64 bits. -/
def requiredCells (preregistration : Dsv41CampaignPreregistrationV1) : ℕ :=
  preregistration.arms.length * preregistration.contextLengths.length % wordLimit *
    preregistration.decodeLengths.length % wordLimit

end Dsv41CampaignPreregistrationV1

/-! ### Evidence -/

/-- Whether a record is claimed to come from a real execution. -/
inductive CampaignRecordKindV1
  | physicalExecution
  | syntheticFixture
  deriving DecidableEq

/-- Exact source provenance of a campaign record. -/
structure CampaignProvenanceV1 where
  gitHead : String
  worktreeClean : Bool
  ciRunId : UInt64
  ciGreenOnExactHead : Bool
  deriving DecidableEq

/-- Hardware and software identity of the execution environment. -/
structure CampaignHardwareV1 where
  backend : CampaignBackendV1
  deviceName : String
  driverVersion : String
  hostOs : String
  deriving DecidableEq

/-- Decode-latency distribution in milliseconds per generated token. -/
structure DecodeLatencyDistributionV1 where
  samples : UInt64
  p50Ms : F64
  p90Ms : F64
  p99Ms : F64
  maxMs : F64
  deriving DecidableEq

/-- One measured cell; every metric is optional. -/
structure CampaignCellV1 where
  armId : String
  contextLength : UInt32
  decodeLength : UInt32
  repetitions : UInt32
  quality : Option F64
  memoryMetric : Option CampaignMemoryMetricV1
  memoryBytes : Option UInt64
  decodeLatency : Option DecodeLatencyDistributionV1
  tokensPerSecond : Option F64
  deriving DecidableEq

/-- Unvalidated campaign evidence record. -/
structure Dsv41CampaignEvidenceV1 where
  kind : CampaignRecordKindV1
  campaignId : String
  provenance : CampaignProvenanceV1
  hardware : CampaignHardwareV1
  cells : List CampaignCellV1
  deriving DecidableEq

/-- A decode latency is refused. -/
def DecodeLatencyDistributionV1.Refused (latency : DecodeLatencyDistributionV1)
    (minSamples : UInt64) : Prop :=
  let ordered := [latency.p50Ms, latency.p90Ms, latency.p99Ms, latency.maxMs]
  latency.samples < minSamples ∨
    (∃ value ∈ ordered, value.isFinite = false ∨ value.le (.zero false) = true) ∨
    ∃ pair ∈ windows ordered, pair.2.lt pair.1 = true

instance (latency : DecodeLatencyDistributionV1) (minSamples : UInt64) :
    Decidable (latency.Refused minSamples) :=
  inferInstanceAs (Decidable (_ ∨ _ ∨ _))

def validateCell (preregistration : Dsv41CampaignPreregistrationV1) (cell : CampaignCellV1) :
    Outcome Dsv41CampaignError PUnit := do
  let missing := Dsv41CampaignError.missingMetric cell.armId cell.contextLength cell.decodeLength
  let invalid := Dsv41CampaignError.invalidMetric cell.armId cell.contextLength cell.decodeLength
  .require (cell.repetitions = preregistration.repetitions)
    (.repetitionMismatch cell.armId preregistration.repetitions cell.repetitions)
  let quality ← .okOr cell.quality (missing .quality)
  .require (quality.isFinite = true) (invalid .quality)
  let metric ← .okOr cell.memoryMetric (missing .memoryMetric)
  .require (metric = preregistration.memoryMetric) (invalid .memoryMetric)
  let bytes ← .okOr cell.memoryBytes (missing .memoryBytes)
  .require (bytes ≠ 0) (invalid .memoryBytes)
  let latency ← .okOr cell.decodeLatency (missing .decodeLatency)
  .require (¬ latency.Refused preregistration.repetitions.toUInt64) (invalid .decodeLatency)
  let tokensPerSecond ← .okOr cell.tokensPerSecond (missing .tokensPerSecond)
  .require (tokensPerSecond.isFinite = true ∧ tokensPerSecond.le (.zero false) = false)
    (invalid .tokensPerSecond)

/-- The cells recorded for an arm, a context length and a decode length. -/
def CampaignCellV1.Matches (cell : CampaignCellV1) (arm : CampaignArmV1)
    (contextLength decodeLength : UInt32) : Bool :=
  cell.armId == arm.armId && cell.contextLength == contextLength &&
    cell.decodeLength == decodeLength

/-- Check that a preregistered cell was recorded once and is valid. -/
def validateGridCell (preregistration : Dsv41CampaignPreregistrationV1)
    (cells : List CampaignCellV1) (arm : CampaignArmV1) (contextLength decodeLength : UInt32) :
    Outcome Dsv41CampaignError PUnit :=
  match cells.filter fun cell => cell.Matches arm contextLength decodeLength with
  | [] => .raise (.missingCell arm.armId contextLength decodeLength)
  | [cell] => validateCell preregistration cell
  | _ :: _ :: _ => .raise (.duplicateCell arm.armId contextLength decodeLength)

/-- Check everything except the record kind. -/
def validateDsv41EvidenceStructure (preregistration : Dsv41CampaignPreregistrationV1)
    (evidence : Dsv41CampaignEvidenceV1) : Outcome Dsv41CampaignError PUnit := do
  .require (evidence.campaignId = preregistration.campaignId) .campaignMismatch
  validateHex "git_head" evidence.provenance.gitHead 40
  .require (evidence.provenance.worktreeClean = true) .dirtyWorktree
  .require (evidence.provenance.ciRunId ≠ 0 ∧ evidence.provenance.ciGreenOnExactHead = true)
    .exactHeadCiNotGreen
  .require (evidence.hardware.backend = preregistration.backend) .backendMismatch
  validateId "device_name" evidence.hardware.deviceName
  validateId "driver_version" evidence.hardware.driverVersion
  validateId "host_os" evidence.hardware.hostOs
  .require (evidence.cells.length = preregistration.requiredCells)
    (.cellCountMismatch preregistration.requiredCells evidence.cells.length)
  preregistration.arms.forM fun arm =>
    preregistration.contextLengths.forM fun contextLength =>
      preregistration.decodeLengths.forM fun decodeLength =>
        validateGridCell preregistration evidence.cells arm contextLength decodeLength

/-- Validate a campaign evidence record, fail closed. -/
def validateDsv41Evidence (preregistration : Dsv41CampaignPreregistrationV1)
    (evidence : Dsv41CampaignEvidenceV1) : Outcome Dsv41CampaignError PUnit := do
  validateDsv41EvidenceStructure preregistration evidence
  .require (evidence.kind = .physicalExecution) .syntheticFixtureIsNotEvidence

end NNIS
