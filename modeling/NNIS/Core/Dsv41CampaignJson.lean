import NNIS.Core.Dsv41Campaign
import NNIS.Core.JsonObject

/-!
# Campaign records as JSON

The encoders and the decoders of `nnis-core/src/dsv41_campaign_json.rs`. A preregistration is
validated again when it is read; a piece of evidence is not. How the standard library prints and
parses a floating-point number is a parameter.

## Main definitions

* `FloatText` — floating-point numbers as texts.
* `preregistrationToJson`, `preregistrationFromJson`.
* `evidenceToJson`, `evidenceFromJson`.
-/

set_option autoImplicit false

namespace NNIS

open JsonObject

/-- `kind` tag of a preregistration record. -/
def dsv41PreregistrationKind : String := "nnis.dsv41.campaign-preregistration"

/-- `kind` tag of an evidence record. -/
def dsv41EvidenceKind : String := "nnis.dsv41.campaign-evidence"

/-- JSON schema version written and accepted. -/
def dsv41CampaignJsonSchemaVersion : UInt32 := 1

/-- Fail-closed JSON errors of campaign records. -/
inductive Dsv41JsonError
  | syntaxError (offset : ℕ) (reason : String)
  | wrongKind
  | unsupportedSchemaVersion
  | missingField (field : String)
  | unknownField (field : String)
  | wrongType (field : String)
  | invalidInteger (field : String)
  | invalidNumber (field : String)
  | unknownVariant (field : String)
  | contract (error : Dsv41CampaignError)
  deriving DecidableEq

/-- The text of an error. -/
def Dsv41JsonError.text : Dsv41JsonError → String
  | .syntaxError offset reason => s!"JSON syntax error at byte {offset}: {reason}"
  | .wrongKind => "record kind tag does not match"
  | .unsupportedSchemaVersion =>
    s!"unsupported schema_version, expected {dsv41CampaignJsonSchemaVersion}"
  | .missingField field => s!"missing field {field}"
  | .unknownField field => s!"unknown field {field}"
  | .wrongType field => s!"field {field} has the wrong type"
  | .invalidInteger field => s!"field {field} is not a valid integer"
  | .invalidNumber field => s!"field {field} is not a finite number"
  | .unknownVariant field => s!"field {field} has an unknown value"
  | .contract error => s!"record contract: {error.text}"

instance : FieldErrors Dsv41JsonError where
  missingField := .missingField
  unknownField := .unknownField
  wrongType := .wrongType
  invalidInteger := .invalidInteger

/-- How a floating-point number is printed, and how a text is parsed as one. -/
structure FloatText where
  format : F64 → String
  parse : String → Option F64

/-! ### Names of variants -/

def backendName : CampaignBackendV1 → String
  | .cpu => "cpu"
  | .wgpu => "wgpu"
  | .legacyCudaCrossCheck => "legacy_cuda_cross_check"

def parseBackend (field value : String) : Outcome Dsv41JsonError CampaignBackendV1 :=
  match value with
  | "cpu" => .ok .cpu
  | "wgpu" => .ok .wgpu
  | "legacy_cuda_cross_check" => .ok .legacyCudaCrossCheck
  | _ => .raise (.unknownVariant field)

def primitiveName : Dsv41PrimitiveV1 → String
  | .boundedReplay => "bounded_replay"
  | .crossLayerKvReuse => "cross_layer_kv_reuse"
  | .fp4E2M1Kv => "fp4_e2m1_kv"
  | .speculativeVerification => "speculative_verification"

def parsePrimitive (value : String) : Outcome Dsv41JsonError Dsv41PrimitiveV1 :=
  match value with
  | "bounded_replay" => .ok .boundedReplay
  | "cross_layer_kv_reuse" => .ok .crossLayerKvReuse
  | "fp4_e2m1_kv" => .ok .fp4E2M1Kv
  | "speculative_verification" => .ok .speculativeVerification
  | _ => .raise (.unknownVariant "primitives[]")

def memoryMetricName : CampaignMemoryMetricV1 → String
  | .peakProcessRssBytes => "peak_process_rss_bytes"
  | .peakDeviceAllocatedBytes => "peak_device_allocated_bytes"
  | .peakNnisOwnedAllocationBytes => "peak_nnis_owned_allocation_bytes"

def parseMemoryMetric (field value : String) : Outcome Dsv41JsonError CampaignMemoryMetricV1 :=
  match value with
  | "peak_process_rss_bytes" => .ok .peakProcessRssBytes
  | "peak_device_allocated_bytes" => .ok .peakDeviceAllocatedBytes
  | "peak_nnis_owned_allocation_bytes" => .ok .peakNnisOwnedAllocationBytes
  | _ => .raise (.unknownVariant field)

def directionName : QualityDirectionV1 → String
  | .higherIsBetter => "higher_is_better"
  | .lowerIsBetter => "lower_is_better"

def parseDirection (value : String) : Outcome Dsv41JsonError QualityDirectionV1 :=
  match value with
  | "higher_is_better" => .ok .higherIsBetter
  | "lower_is_better" => .ok .lowerIsBetter
  | _ => .raise (.unknownVariant "direction")

def recordKindName : CampaignRecordKindV1 → String
  | .physicalExecution => "physical_execution"
  | .syntheticFixture => "synthetic_fixture"

def parseRecordKind (value : String) : Outcome Dsv41JsonError CampaignRecordKindV1 :=
  match value with
  | "physical_execution" => .ok .physicalExecution
  | "synthetic_fixture" => .ok .syntheticFixture
  | _ => .raise (.unknownVariant "record_kind")

/-- Decode a text by the parser of its variants. -/
def asParsed {α : Type} (field : String) (parse : String → Outcome Dsv41JsonError α)
    (value : Json) : Outcome Dsv41JsonError α := do
  let text ← asString field value
  parse text

/-! ### Encoding -/

def u32Array (values : List UInt32) : Json :=
  .array (values.map fun value => .unsigned value.toUInt64)

/-- Encode a value that may be absent. -/
def optional {α : Type} (encode : α → Outcome Dsv41JsonError Json) :
    Option α → Outcome Dsv41JsonError Json
  | none => .ok .null
  | some value => encode value

def modelJson (model : CampaignModelV1) : Json :=
  .object
    [("model_id", .string model.modelId),
      ("revision", .string model.revision),
      ("weights_sha256", .string model.weightsSha256)]

def promptSuiteJson (suite : CampaignPromptSuiteV1) : Json :=
  .object
    [("suite_id", .string suite.suiteId),
      ("suite_sha256", .string suite.suiteSha256),
      ("prompt_count", .unsigned suite.promptCount.toUInt64)]

def armJson (arm : CampaignArmV1) : Json :=
  .object
    [("arm_id", .string arm.armId),
      ("primitives", .array (arm.primitives.map fun primitive =>
        .string (primitiveName primitive)))]

def provenanceJson (provenance : CampaignProvenanceV1) : Json :=
  .object
    [("git_head", .string provenance.gitHead),
      ("worktree_clean", .bool provenance.worktreeClean),
      ("ci_run_id", .unsigned provenance.ciRunId),
      ("ci_green_on_exact_head", .bool provenance.ciGreenOnExactHead)]

def hardwareJson (hardware : CampaignHardwareV1) : Json :=
  .object
    [("backend", .string (backendName hardware.backend)),
      ("device_name", .string hardware.deviceName),
      ("driver_version", .string hardware.driverVersion),
      ("host_os", .string hardware.hostOs)]

/-- The members of an encoded record: its tag, its version, and its own members. -/
def campaignRecordJson (kind : String) (members : List (String × Json)) : Json :=
  .object
    (("kind", .string kind) ::
      ("schema_version", .unsigned dsv41CampaignJsonSchemaVersion.toUInt64) :: members)

section

variable (floats : FloatText)

/-- JSON number text for a finite float. -/
def Json.float (value : F64) : Option Json :=
  if value.isFinite then some (.number (floats.format value)) else none

def finite (field : String) (value : F64) : Outcome Dsv41JsonError Json :=
  .okOr (Json.float floats value) (.invalidNumber field)

def qualityMetricJson (quality : CampaignQualityMetricV1) : Outcome Dsv41JsonError Json := do
  let maxRegression ← finite floats "max_regression" quality.maxRegression
  pure <| .object
    [("metric_id", .string quality.metricId),
      ("direction", .string (directionName quality.direction)),
      ("max_regression", maxRegression)]

def preregistrationJson (record : Dsv41CampaignPreregistrationV1) :
    Outcome Dsv41JsonError Json := do
  let qualityMetric ← qualityMetricJson floats record.qualityMetric
  pure <| campaignRecordJson dsv41PreregistrationKind
    [("campaign_id", .string record.campaignId),
      ("model", modelJson record.model),
      ("prompt_suite", promptSuiteJson record.promptSuite),
      ("backend", .string (backendName record.backend)),
      ("arms", .array (record.arms.map armJson)),
      ("context_lengths", u32Array record.contextLengths),
      ("decode_lengths", u32Array record.decodeLengths),
      ("repetitions", .unsigned record.repetitions.toUInt64),
      ("memory_metric", .string (memoryMetricName record.memoryMetric)),
      ("quality_metric", qualityMetric)]

/-- Encode a validated preregistration as compact JSON. -/
def preregistrationToJson (record : Dsv41CampaignPreregistrationV1) :
    Outcome Dsv41JsonError String := do
  let value ← preregistrationJson floats record
  pure (Json.write value)

def latencyJson (latency : DecodeLatencyDistributionV1) : Outcome Dsv41JsonError Json := do
  let p50Ms ← finite floats "p50_ms" latency.p50Ms
  let p90Ms ← finite floats "p90_ms" latency.p90Ms
  let p99Ms ← finite floats "p99_ms" latency.p99Ms
  let maxMs ← finite floats "max_ms" latency.maxMs
  pure <| .object
    [("samples", .unsigned latency.samples),
      ("p50_ms", p50Ms),
      ("p90_ms", p90Ms),
      ("p99_ms", p99Ms),
      ("max_ms", maxMs)]

def cellJson (cell : CampaignCellV1) : Outcome Dsv41JsonError Json := do
  let decodeLatency ← optional (latencyJson floats) cell.decodeLatency
  let quality ← optional (finite floats "quality") cell.quality
  let memoryMetric ← optional (fun metric => .ok (.string (memoryMetricName metric)))
    cell.memoryMetric
  let memoryBytes ← optional (fun bytes => .ok (.unsigned bytes)) cell.memoryBytes
  let tokensPerSecond ← optional (finite floats "tokens_per_second") cell.tokensPerSecond
  pure <| .object
    [("arm_id", .string cell.armId),
      ("context_length", .unsigned cell.contextLength.toUInt64),
      ("decode_length", .unsigned cell.decodeLength.toUInt64),
      ("repetitions", .unsigned cell.repetitions.toUInt64),
      ("quality", quality),
      ("memory_metric", memoryMetric),
      ("memory_bytes", memoryBytes),
      ("decode_latency", decodeLatency),
      ("tokens_per_second", tokensPerSecond)]

def evidenceJson (record : Dsv41CampaignEvidenceV1) : Outcome Dsv41JsonError Json := do
  let cells ← record.cells.mapM (cellJson floats)
  pure <| campaignRecordJson dsv41EvidenceKind
    [("record_kind", .string (recordKindName record.kind)),
      ("campaign_id", .string record.campaignId),
      ("provenance", provenanceJson record.provenance),
      ("hardware", hardwareJson record.hardware),
      ("cells", .array cells)]

/-- Encode an evidence record as compact JSON. -/
def evidenceToJson (record : Dsv41CampaignEvidenceV1) : Outcome Dsv41JsonError String := do
  let value ← evidenceJson floats record
  pure (Json.write value)

end

/-! ### Decoding -/

section

variable (floats : FloatText)

def asF64 (field : String) : Json → Outcome Dsv41JsonError F64
  | .number text => do
    let parsed ← .okOr (floats.parse text) (.invalidNumber field)
    if parsed.isFinite then pure parsed else .raise (.invalidNumber field)
  | _ => .raise (.wrongType field)

def f64 (field : String) : Reader Dsv41JsonError F64 := read field (asF64 floats field)

def nullableF64 (field : String) : Reader Dsv41JsonError (Option F64) :=
  read field (orNull (asF64 floats field))

end

def modelFrom : Reader Dsv41JsonError CampaignModelV1 := do
  let modelId ← string "model_id"
  let revision ← string "revision"
  let weightsSha256 ← string "weights_sha256"
  finish
  pure { modelId, revision, weightsSha256 }

def promptSuiteFrom : Reader Dsv41JsonError CampaignPromptSuiteV1 := do
  let suiteId ← string "suite_id"
  let suiteSha256 ← string "suite_sha256"
  let promptCount ← u32 "prompt_count"
  finish
  pure { suiteId, suiteSha256, promptCount }

def armFrom : Reader Dsv41JsonError CampaignArmV1 := do
  let armId ← string "arm_id"
  let primitives ← array "primitives" (asParsed "primitives[]" parsePrimitive)
  finish
  pure { armId, primitives }

def provenanceFrom : Reader Dsv41JsonError CampaignProvenanceV1 := do
  let gitHead ← string "git_head"
  let worktreeClean ← bool "worktree_clean"
  let ciRunId ← u64 "ci_run_id"
  let ciGreenOnExactHead ← bool "ci_green_on_exact_head"
  finish
  pure { gitHead, worktreeClean, ciRunId, ciGreenOnExactHead }

def hardwareFrom : Reader Dsv41JsonError CampaignHardwareV1 := do
  let backend ← read "backend" (asParsed "backend" (parseBackend "hardware.backend"))
  let deviceName ← string "device_name"
  let driverVersion ← string "driver_version"
  let hostOs ← string "host_os"
  finish
  pure { backend, deviceName, driverVersion, hostOs }

/-- Check the `kind` and the `schema_version` of a record. -/
def campaignRecordTag (kind : String) : Reader Dsv41JsonError PUnit := do
  let found ← string "kind"
  Fallible.ofExcept (Outcome.require (found = kind) .wrongKind)
  let version ← take "schema_version"
  Fallible.ofExcept (Outcome.require
    ((asU64 "schema_version" version : Outcome Dsv41JsonError UInt64).toOption =
      some dsv41CampaignJsonSchemaVersion.toUInt64) .unsupportedSchemaVersion)

/-- Parse a document and read its root. -/
def parseCampaignRoot {α : Type} (root : Reader Dsv41JsonError α) (input : String) :
    Outcome Dsv41JsonError α := do
  let value ← (Json.parse input).wrap fun error => .syntaxError error.offset error.reason
  asObject "root" root value

section

variable (floats : FloatText)

def qualityMetricFrom : Reader Dsv41JsonError CampaignQualityMetricV1 := do
  let metricId ← string "metric_id"
  let direction ← read "direction" (asParsed "direction" parseDirection)
  let maxRegression ← f64 floats "max_regression"
  finish
  pure { metricId, direction, maxRegression }

def preregistrationRoot : Reader Dsv41JsonError Dsv41CampaignPreregistrationFieldsV1 := do
  campaignRecordTag dsv41PreregistrationKind
  let campaignId ← string "campaign_id"
  let model ← object "model" modelFrom
  let promptSuite ← object "prompt_suite" promptSuiteFrom
  let backend ← read "backend" (asParsed "backend" (parseBackend "backend"))
  let arms ← array "arms" (asObject "arms[]" armFrom)
  let contextLengths ← array "context_lengths" (asU32 "context_lengths")
  let decodeLengths ← array "decode_lengths" (asU32 "decode_lengths")
  let repetitions ← u32 "repetitions"
  let memoryMetric ← read "memory_metric"
    (asParsed "memory_metric" (parseMemoryMetric "memory_metric"))
  let qualityMetric ← object "quality_metric" (qualityMetricFrom floats)
  finish
  pure
    { campaignId, model, promptSuite, backend, arms, contextLengths, decodeLengths, repetitions,
      memoryMetric, qualityMetric }

/-- Parse and validate a preregistration record. -/
def preregistrationFromJson (input : String) :
    Outcome Dsv41JsonError Dsv41CampaignPreregistrationV1 := do
  let fields ← parseCampaignRoot (preregistrationRoot floats) input
  (Dsv41CampaignPreregistrationV1.new fields).wrap .contract

def latencyFrom : Reader Dsv41JsonError DecodeLatencyDistributionV1 := do
  let samples ← u64 "samples"
  let p50Ms ← f64 floats "p50_ms"
  let p90Ms ← f64 floats "p90_ms"
  let p99Ms ← f64 floats "p99_ms"
  let maxMs ← f64 floats "max_ms"
  finish
  pure { samples, p50Ms, p90Ms, p99Ms, maxMs }

def cellFrom : Reader Dsv41JsonError CampaignCellV1 := do
  let armId ← string "arm_id"
  let contextLength ← u32 "context_length"
  let decodeLength ← u32 "decode_length"
  let repetitions ← u32 "repetitions"
  let quality ← nullableF64 floats "quality"
  let memoryMetric ← read "memory_metric"
    (orNull (asParsed "memory_metric" (parseMemoryMetric "memory_metric")))
  let memoryBytes ← read "memory_bytes" (orNull (asU64 "memory_bytes"))
  let decodeLatency ← read "decode_latency"
    (orNull (asObject "decode_latency" (latencyFrom floats)))
  let tokensPerSecond ← nullableF64 floats "tokens_per_second"
  finish
  pure
    { armId, contextLength, decodeLength, repetitions, quality, memoryMetric, memoryBytes,
      decodeLatency, tokensPerSecond }

def evidenceRoot : Reader Dsv41JsonError Dsv41CampaignEvidenceV1 := do
  campaignRecordTag dsv41EvidenceKind
  let kind ← read "record_kind" (asParsed "record_kind" parseRecordKind)
  let campaignId ← string "campaign_id"
  let provenance ← object "provenance" provenanceFrom
  let hardware ← object "hardware" hardwareFrom
  let cells ← array "cells" (asObject "cells[]" (cellFrom floats))
  finish
  pure { kind, campaignId, provenance, hardware, cells }

/-- Parse an evidence record without validating it against a preregistration. -/
def evidenceFromJson (input : String) : Outcome Dsv41JsonError Dsv41CampaignEvidenceV1 :=
  parseCampaignRoot (evidenceRoot floats) input

end

end NNIS
