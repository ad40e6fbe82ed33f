import NNIS.Core.Dsv41CampaignJson
import NNIS.Core.JsonSchema

/-!
# The schema of campaign records

The objects of a campaign record have the fields listed here and no others, and each field occurs
once. A text that is accepted is therefore no longer accepted when a field of any of its objects is
added or removed.

## Main definitions

* `preregistrationFields`, `evidenceFields`.

## Main results

* `takes_preregistrationRoot`, `takes_evidenceRoot` — the readers take these fields.
* `rigid_preregistration`, `rigid_evidence` — no other fields are taken.
* `parseCampaignRoot_of_fieldChange` — a changed field is refused.
-/

set_option autoImplicit false

namespace NNIS

open Json JsonObject

/-- The fields of an object with the conditions on their values. -/
abbrev Fields : Type := List (String × (Json → Prop))

def modelFields : Fields :=
  [("model_id", IsScalar), ("revision", IsScalar), ("weights_sha256", IsScalar)]

def promptSuiteFields : Fields :=
  [("suite_id", IsScalar), ("suite_sha256", IsScalar), ("prompt_count", IsScalar)]

def armFields : Fields := [("arm_id", IsScalar), ("primitives", ArrayOf IsScalar)]

def qualityMetricFields : Fields :=
  [("metric_id", IsScalar), ("direction", IsScalar), ("max_regression", IsScalar)]

def preregistrationFields : Fields :=
  [("kind", IsScalar),
    ("schema_version", IsScalar),
    ("campaign_id", IsScalar),
    ("model", ObjectOf modelFields),
    ("prompt_suite", ObjectOf promptSuiteFields),
    ("backend", IsScalar),
    ("arms", ArrayOf (ObjectOf armFields)),
    ("context_lengths", ArrayOf IsScalar),
    ("decode_lengths", ArrayOf IsScalar),
    ("repetitions", IsScalar),
    ("memory_metric", IsScalar),
    ("quality_metric", ObjectOf qualityMetricFields)]

def provenanceFields : Fields :=
  [("git_head", IsScalar),
    ("worktree_clean", IsScalar),
    ("ci_run_id", IsScalar),
    ("ci_green_on_exact_head", IsScalar)]

def hardwareFields : Fields :=
  [("backend", IsScalar),
    ("device_name", IsScalar),
    ("driver_version", IsScalar),
    ("host_os", IsScalar)]

def latencyFields : Fields :=
  [("samples", IsScalar),
    ("p50_ms", IsScalar),
    ("p90_ms", IsScalar),
    ("p99_ms", IsScalar),
    ("max_ms", IsScalar)]

def cellFields : Fields :=
  [("arm_id", IsScalar),
    ("context_length", IsScalar),
    ("decode_length", IsScalar),
    ("repetitions", IsScalar),
    ("quality", NullOr IsScalar),
    ("memory_metric", NullOr IsScalar),
    ("memory_bytes", NullOr IsScalar),
    ("decode_latency", NullOr (ObjectOf latencyFields)),
    ("tokens_per_second", NullOr IsScalar)]

def evidenceFields : Fields :=
  [("kind", IsScalar),
    ("schema_version", IsScalar),
    ("record_kind", IsScalar),
    ("campaign_id", IsScalar),
    ("provenance", ObjectOf provenanceFields),
    ("hardware", ObjectOf hardwareFields),
    ("cells", ArrayOf (ObjectOf cellFields))]

/-! ### Decoders of values -/

theorem accepts_asParsed {α : Type} (field : String) {parse : String → Outcome Dsv41JsonError α}
    (hparse : ∀ text, (parse text).Safe) : Accepts (asParsed field parse) IsScalar :=
  .bind (.string field) hparse

theorem parseBackend_safe (field value : String) : (parseBackend field value).Safe := by
  unfold parseBackend
  split <;> exact nofun

theorem parsePrimitive_safe (value : String) : (parsePrimitive value).Safe := by
  unfold parsePrimitive
  split <;> exact nofun

theorem parseMemoryMetric_safe (field value : String) : (parseMemoryMetric field value).Safe := by
  unfold parseMemoryMetric
  split <;> exact nofun

theorem parseDirection_safe (value : String) : (parseDirection value).Safe := by
  unfold parseDirection
  split <;> exact nofun

theorem parseRecordKind_safe (value : String) : (parseRecordKind value).Safe := by
  unfold parseRecordKind
  split <;> exact nofun

theorem accepts_asF64 (floats : FloatText) (field : String) :
    Accepts (asF64 floats field) IsScalar := by
  intro value
  cases value with
  | number text =>
    have hsafe : (asF64 floats field (.number text)).Safe :=
      (Outcome.Safe.okOr _ _).bind fun parsed _ => by
        split_ifs
        · exact .pure _
        · exact .raise _
    exact .of_safe hsafe fun _ => trivial
  | null | bool | string | array | object => trivial

/-! ### Readers of objects -/

theorem takes_modelFrom : Takes modelFrom modelFields :=
  .string fun _ => .string fun _ => .string fun _ => .finish _

theorem takes_promptSuiteFrom : Takes promptSuiteFrom promptSuiteFields :=
  .string fun _ => .string fun _ => .u32 fun _ => .finish _

theorem takes_armFrom : Takes armFrom armFields :=
  .string fun _ => .array (accepts_asParsed _ parsePrimitive_safe) fun _ => .finish _

theorem takes_provenanceFrom : Takes provenanceFrom provenanceFields :=
  .string fun _ => .bool fun _ => .u64 fun _ => .bool fun _ => .finish _

theorem takes_hardwareFrom : Takes hardwareFrom hardwareFields :=
  .read (accepts_asParsed _ (parseBackend_safe _)) fun _ => .string fun _ => .string fun _ =>
    .string fun _ => .finish _

/-- The tag of a record is its first two fields. -/
theorem takes_campaignRecordTag {α : Type} {kind : String}
    {next : PUnit → Reader Dsv41JsonError α} {fields : Fields} (h : ∀ u, Takes (next u) fields) :
    Takes (campaignRecordTag kind >>= next)
      (("kind", IsScalar) :: ("schema_version", IsScalar) :: fields) := by
  have hversion : Accepts (fun version => Outcome.require
      ((asU64 "schema_version" version : Outcome Dsv41JsonError UInt64).toOption =
        some dsv41CampaignJsonSchemaVersion.toUInt64)
      Dsv41JsonError.unsupportedSchemaVersion) IsScalar := by
    intro value
    have hvalue : (asU64 "schema_version" value).Ensures fun _ => IsScalar value :=
      Accepts.u64 (ε := Dsv41JsonError) "schema_version" value
    simp only [Outcome.require]
    split_ifs with hversion
    · rcases hdecode : (asU64 "schema_version" value : Outcome Dsv41JsonError UInt64) with
        e | version
      · rw [hdecode] at hversion
        exact nomatch hversion
      · exact hvalue.of_ok hdecode
    · trivial
  rw [campaignRecordTag, bind_assoc]
  refine .string fun found => ?_
  rw [bind_assoc]
  exact .ofExcept (.require _ _) fun _ => .read hversion h

section

variable (floats : FloatText)

theorem takes_qualityMetricFrom : Takes (qualityMetricFrom floats) qualityMetricFields :=
  .string fun _ => .read (accepts_asParsed _ parseDirection_safe) fun _ =>
    .read (accepts_asF64 floats _) fun _ => .finish _

theorem takes_latencyFrom : Takes (latencyFrom floats) latencyFields :=
  .u64 fun _ => .read (accepts_asF64 floats _) fun _ => .read (accepts_asF64 floats _) fun _ =>
    .read (accepts_asF64 floats _) fun _ => .read (accepts_asF64 floats _) fun _ => .finish _

theorem takes_cellFrom : Takes (cellFrom floats) cellFields :=
  .string fun _ => .u32 fun _ => .u32 fun _ => .u32 fun _ =>
    .read (.orNull (accepts_asF64 floats _)) fun _ =>
    .read (.orNull (accepts_asParsed _ (parseMemoryMetric_safe _))) fun _ =>
    .read (.orNull (.u64 _)) fun _ =>
    .read (.orNull (.asObject (takes_latencyFrom floats) _)) fun _ =>
    .read (.orNull (accepts_asF64 floats _)) fun _ => .finish _

theorem takes_preregistrationRoot : Takes (preregistrationRoot floats) preregistrationFields :=
  takes_campaignRecordTag fun _ => .string fun _ =>
    .object takes_modelFrom fun _ =>
    .object takes_promptSuiteFrom fun _ =>
    .read (accepts_asParsed _ (parseBackend_safe _)) fun _ =>
    .array (.asObject takes_armFrom _) fun _ =>
    .array (.u32 _) fun _ =>
    .array (.u32 _) fun _ => .u32 fun _ =>
    .read (accepts_asParsed _ (parseMemoryMetric_safe _)) fun _ =>
    .object (takes_qualityMetricFrom floats) fun _ => .finish _

theorem takes_evidenceRoot : Takes (evidenceRoot floats) evidenceFields :=
  takes_campaignRecordTag fun _ =>
    .read (accepts_asParsed _ parseRecordKind_safe) fun _ => .string fun _ =>
    .object takes_provenanceFrom fun _ =>
    .object takes_hardwareFrom fun _ =>
    .array (.asObject (takes_cellFrom floats) _) fun _ => .finish _

end

/-! ### The schemas are closed -/

theorem rigid_preregistration : Rigid (ObjectOf preregistrationFields) := by
  have hmodel : Rigid (ObjectOf modelFields) := .object (by decide) (by simp [modelFields])
  have hsuite : Rigid (ObjectOf promptSuiteFields) :=
    .object (by decide) (by simp [promptSuiteFields])
  have harm : Rigid (ObjectOf armFields) := .object (by decide) (by simp [armFields])
  have hquality : Rigid (ObjectOf qualityMetricFields) :=
    .object (by decide) (by simp [qualityMetricFields])
  exact .object (by decide) (by simp [preregistrationFields, hmodel, hsuite, harm, hquality])

theorem rigid_evidence : Rigid (ObjectOf evidenceFields) := by
  have hprovenance : Rigid (ObjectOf provenanceFields) :=
    .object (by decide) (by simp [provenanceFields])
  have hhardware : Rigid (ObjectOf hardwareFields) :=
    .object (by decide) (by simp [hardwareFields])
  have hlatency : Rigid (ObjectOf latencyFields) := .object (by decide) (by simp [latencyFields])
  have hcell : Rigid (ObjectOf cellFields) := .object (by decide) (by simp [cellFields, hlatency])
  exact .object (by decide) (by simp [evidenceFields, hprovenance, hhardware, hcell])

/-- If a text is accepted, a text whose value differs from its value by a field is refused. -/
theorem parseCampaignRoot_of_fieldChange {α : Type} {root : Reader Dsv41JsonError α}
    {fields : Fields} (hroot : Takes root fields) (hrigid : Rigid (ObjectOf fields))
    {text text' : String} {value value' : Json} {a : α} (hvalue : Json.parse text = .ok value)
    (hvalue' : Json.parse text' = .ok value') (hchange : FieldChange value value')
    (h : parseCampaignRoot root text = .ok a) : ∃ e, parseCampaignRoot root text' = .raise e := by
  rw [parseCampaignRoot, hvalue] at h
  have haccept := (Accepts.asObject hroot "root" value).of_ok h
  have hroot' := Accepts.asObject hroot "root" value'
  rw [parseCampaignRoot, hvalue']
  rcases hread : asObject "root" root value' with (e | _) | a'
  · exact ⟨e, hread⟩
  · exact absurd hread hroot'.safe
  · exact absurd (hroot'.of_ok hread) (hrigid value value' hchange haccept)

end NNIS
