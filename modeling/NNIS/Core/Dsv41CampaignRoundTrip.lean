import NNIS.Core.Dsv41CampaignSchema
import NNIS.Core.JsonShape

/-!
# Campaign records are read back

Each decoder takes the members of an object in the order in which the encoder writes them. The
encoders of records with floats may fail, and do so only on floats that are not finite; what they
return on the others is decoded as the record it came from, because the printed floats are.

## Main definitions

* `FloatText.RoundTrips` — what is asked of the printing of floats.
* `Encodes` — an encoder and a decoder that agree on a value.

## Main results

* `preregistrationFromJson_toJson`, `evidenceFromJson_toJson`.
* `campaignJson_correct`.
-/

set_option autoImplicit false

namespace NNIS

open JsonObject

/-- Finite numbers are printed as numbers of the grammar and parsed back exactly. -/
structure FloatText.RoundTrips (floats : FloatText) : Prop where
  parse_format : ∀ x : F64, x.isFinite = true → floats.parse (floats.format x) = some x
  isNumber_format : ∀ x : F64, x.isFinite = true → Json.Grammar.IsNumber (floats.format x).toList

/-- All quantiles are finite. -/
structure DecodeLatencyDistributionV1.Finite (latency : DecodeLatencyDistributionV1) : Prop where
  p50Ms : latency.p50Ms.isFinite = true
  p90Ms : latency.p90Ms.isFinite = true
  p99Ms : latency.p99Ms.isFinite = true
  maxMs : latency.maxMs.isFinite = true

/-- The floats that a cell reports are finite. -/
structure CampaignCellV1.Finite (cell : CampaignCellV1) : Prop where
  quality : ∀ x, cell.quality = some x → x.isFinite = true
  decodeLatency : ∀ latency, cell.decodeLatency = some latency → latency.Finite
  tokensPerSecond : ∀ x, cell.tokensPerSecond = some x → x.isFinite = true

/-! ### Parts -/

/-- The encoded value exists, the parser could return it, and it is decoded as the given one. -/
def Encodes {α : Type} (decode : Json → Outcome Dsv41JsonError α) (depth : ℕ)
    (encoded : Outcome Dsv41JsonError Json) (a : α) : Prop :=
  ∃ value, encoded = .ok value ∧ value.Shaped depth ∧ decode value = .ok a

namespace Encodes

variable {α : Type} {decode : Json → Outcome Dsv41JsonError α}

theorem finite {floats : FloatText} (hfloats : floats.RoundTrips) (depth : ℕ) (field : String)
    {x : F64} (hx : x.isFinite = true) :
    Encodes (asF64 floats field) depth (NNIS.finite floats field x) x := by
  refine ⟨.number (floats.format x), ?_, .number (hfloats.isNumber_format x hx), ?_⟩
  · rw [NNIS.finite, Json.float, if_pos hx]
    rfl
  · rw [asF64, hfloats.parse_format x hx]
    exact if_pos hx

/-- A value that may be absent, if its decoder does not read `null`. -/
theorem optional {encode : α → Outcome Dsv41JsonError Json} {depth : ℕ} {o : Option α}
    (hnull : ∀ a, decode .null ≠ .ok a) (h : ∀ a, o = some a → Encodes decode depth (encode a) a) :
    Encodes (orNull decode) depth (NNIS.optional encode o) o := by
  cases o with
  | none => exact ⟨.null, rfl, .null, rfl⟩
  | some a =>
    obtain ⟨value, hencode, hshape, hdecode⟩ := h a rfl
    refine ⟨value, hencode, hshape, ?_⟩
    cases value with
    | null => exact absurd hdecode (hnull a)
    | bool | number | string | array | object =>
      rw [orNull, hdecode]
      · rfl
      · exact nofun

/-- Values that are encoded one by one are decoded one by one. -/
theorem mapM {encode : α → Outcome Dsv41JsonError Json} {depth : ℕ} {items : List α}
    (h : ∀ item ∈ items, Encodes decode depth (encode item) item) :
    ∃ values, items.mapM encode = .ok values ∧ (∀ value ∈ values, value.Shaped depth) ∧
      values.mapM decode = .ok items := by
  induction items with
  | nil => exact ⟨[], rfl, List.forall_mem_nil _, rfl⟩
  | cons item items ih =>
    obtain ⟨⟨value, hencode, hshape, hdecode⟩, hitems⟩ := List.forall_mem_cons.1 h
    obtain ⟨values, hencodes, hshapes, hdecodes⟩ := ih hitems
    refine ⟨value :: values, ?_, List.forall_mem_cons.2 ⟨hshape, hshapes⟩, ?_⟩
    · rw [List.mapM_cons, hencode, hencodes]
      rfl
    · rw [List.mapM_cons, hdecode, hdecodes]
      rfl

end Encodes

/-! ### Variants -/

theorem asParsed_string {α : Type} {parse : String → Outcome Dsv41JsonError α} {text : String}
    {a : α} (h : parse text = .ok a) (field : String) :
    asParsed field parse (.string text) = .ok a := h

theorem parseBackend_name (field : String) (backend : CampaignBackendV1) :
    parseBackend field (backendName backend) = .ok backend := by
  cases backend <;> rfl

theorem parsePrimitive_name (primitive : Dsv41PrimitiveV1) :
    parsePrimitive (primitiveName primitive) = .ok primitive := by
  cases primitive <;> rfl

theorem parseMemoryMetric_name (field : String) (metric : CampaignMemoryMetricV1) :
    parseMemoryMetric field (memoryMetricName metric) = .ok metric := by
  cases metric <;> rfl

theorem parseDirection_name (direction : QualityDirectionV1) :
    parseDirection (directionName direction) = .ok direction := by
  cases direction <;> rfl

theorem parseRecordKind_name (kind : CampaignRecordKindV1) :
    parseRecordKind (recordKindName kind) = .ok kind := by
  cases kind <;> rfl

/-! ### Objects -/

private theorem asObject_modelJson (model : CampaignModelV1) :
    asObject "model" modelFrom (modelJson model) = .ok model := by
  simp only [modelJson, asObject_object, modelFrom, run_string_bind, run_finish_bind,
    Fallible.run_pure]

private theorem asObject_promptSuiteJson (suite : CampaignPromptSuiteV1) :
    asObject "prompt_suite" promptSuiteFrom (promptSuiteJson suite) = .ok suite := by
  simp only [promptSuiteJson, asObject_object, promptSuiteFrom, run_string_bind, run_u32_bind,
    run_finish_bind, Fallible.run_pure]

private theorem asObject_armJson (arm : CampaignArmV1) :
    asObject "arms[]" armFrom (armJson arm) = .ok arm := by
  have hprimitives : arrayOf "primitives" (asParsed "primitives[]" parsePrimitive)
      (.array (arm.primitives.map fun primitive => .string (primitiveName primitive))) =
        .ok arm.primitives :=
    arrayOf_map fun primitive _ => asParsed_string (parsePrimitive_name primitive) _
  rw [armJson, asObject_object, armFrom, run_string_bind, array, run_read_bind hprimitives,
    run_finish_bind, Fallible.run_pure]

private theorem asObject_provenanceJson (provenance : CampaignProvenanceV1) :
    asObject "provenance" provenanceFrom (provenanceJson provenance) = .ok provenance := by
  simp only [provenanceJson, asObject_object, provenanceFrom, run_string_bind, run_bool_bind,
    run_u64_bind, run_finish_bind, Fallible.run_pure]

private theorem asObject_hardwareJson (hardware : CampaignHardwareV1) :
    asObject "hardware" hardwareFrom (hardwareJson hardware) = .ok hardware := by
  simp only [hardwareJson, asObject_object, hardwareFrom, run_string_bind, run_finish_bind,
    Fallible.run_pure,
    run_read_bind (asParsed_string (parseBackend_name "hardware.backend" hardware.backend) _)]

theorem arrayOf_u32Array (field : String) (values : List UInt32) :
    arrayOf field (asU32 field : Json → Outcome Dsv41JsonError UInt32) (u32Array values) =
      .ok values :=
  arrayOf_map fun value _ => asU32_unsigned field value

section

variable {floats : FloatText} (hfloats : floats.RoundTrips) (depth : ℕ)

include hfloats

private theorem encodes_qualityMetric {quality : CampaignQualityMetricV1}
    (h : quality.maxRegression.isFinite = true) :
    Encodes (asObject "quality_metric" (qualityMetricFrom floats)) (depth + 1)
      (qualityMetricJson floats quality) quality := by
  obtain ⟨budget, hbudget, hshape, hdecode⟩ := Encodes.finite hfloats depth "max_regression" h
  refine ⟨_, by rw [qualityMetricJson, hbudget]; rfl, .object (by simp) (by simp [hshape]), ?_⟩
  simp only [asObject_object, qualityMetricFrom, run_string_bind, f64, run_finish_bind,
    run_read_bind (asParsed_string (parseDirection_name quality.direction) _),
    run_read_bind hdecode, Fallible.run_pure]

private theorem encodes_latency {latency : DecodeLatencyDistributionV1} (h : latency.Finite) :
    Encodes (asObject "decode_latency" (latencyFrom floats)) (depth + 1)
      (latencyJson floats latency) latency := by
  obtain ⟨p50, hp50, hshape50, hdecode50⟩ := Encodes.finite hfloats depth "p50_ms" h.p50Ms
  obtain ⟨p90, hp90, hshape90, hdecode90⟩ := Encodes.finite hfloats depth "p90_ms" h.p90Ms
  obtain ⟨p99, hp99, hshape99, hdecode99⟩ := Encodes.finite hfloats depth "p99_ms" h.p99Ms
  obtain ⟨top, htop, hshapeTop, hdecodeTop⟩ := Encodes.finite hfloats depth "max_ms" h.maxMs
  refine ⟨_, by rw [latencyJson, hp50, hp90, hp99, htop]; rfl,
    .object (by simp) (by simp [hshape50, hshape90, hshape99, hshapeTop]), ?_⟩
  simp only [asObject_object, latencyFrom, run_u64_bind, f64, run_finish_bind,
    run_read_bind hdecode50, run_read_bind hdecode90, run_read_bind hdecode99,
    run_read_bind hdecodeTop, Fallible.run_pure]

private theorem encodes_cell {cell : CampaignCellV1} (h : cell.Finite) :
    Encodes (asObject "cells[]" (cellFrom floats)) (depth + 2) (cellJson floats cell) cell := by
  obtain ⟨latency, hlatency, hshapeLatency, hdecodeLatency⟩ : Encodes
      (orNull (asObject "decode_latency" (latencyFrom floats))) (depth + 1)
      (optional (latencyJson floats) cell.decodeLatency) cell.decodeLatency :=
    .optional nofun fun latency hsome => encodes_latency hfloats depth (h.decodeLatency _ hsome)
  obtain ⟨quality, hquality, hshapeQuality, hdecodeQuality⟩ : Encodes
      (orNull (asF64 floats "quality")) (depth + 1)
      (optional (finite floats "quality") cell.quality) cell.quality :=
    .optional nofun fun x hsome => .finite hfloats _ _ (h.quality x hsome)
  obtain ⟨speed, hspeed, hshapeSpeed, hdecodeSpeed⟩ : Encodes
      (orNull (asF64 floats "tokens_per_second")) (depth + 1)
      (optional (finite floats "tokens_per_second") cell.tokensPerSecond) cell.tokensPerSecond :=
    .optional nofun fun x hsome => .finite hfloats _ _ (h.tokensPerSecond x hsome)
  obtain ⟨metric, hmetric, hshapeMetric, hdecodeMetric⟩ : Encodes
      (orNull (asParsed "memory_metric" (parseMemoryMetric "memory_metric"))) (depth + 1)
      (optional (fun metric => .ok (.string (memoryMetricName metric))) cell.memoryMetric)
      cell.memoryMetric :=
    .optional nofun fun metric _ => ⟨_, rfl, .string _,
      asParsed_string (parseMemoryMetric_name _ metric) _⟩
  obtain ⟨bytes, hbytes, hshapeBytes, hdecodeBytes⟩ : Encodes
      (orNull (asU64 "memory_bytes")) (depth + 1)
      (optional (fun bytes => .ok (.unsigned bytes)) cell.memoryBytes) cell.memoryBytes :=
    .optional nofun fun bytes _ => ⟨_, rfl, .unsigned bytes, asU64_unsigned _ bytes⟩
  refine ⟨_, by rw [cellJson, hlatency, hquality, hspeed, hmetric, hbytes]; rfl,
    .object (by simp)
      (by simp [hshapeLatency, hshapeQuality, hshapeSpeed, hshapeMetric, hshapeBytes]), ?_⟩
  simp only [asObject_object, cellFrom, run_string_bind, run_u32_bind, nullableF64,
    run_read_bind hdecodeQuality, run_read_bind hdecodeMetric, run_read_bind hdecodeBytes,
    run_read_bind hdecodeLatency, run_read_bind hdecodeSpeed, run_finish_bind, Fallible.run_pure]

end

/-! ### Shapes -/

section

variable (depth : ℕ)

private theorem shaped_modelJson (model : CampaignModelV1) :
    (modelJson model).Shaped (depth + 1) :=
  .object (by simp) (by simp)

private theorem shaped_promptSuiteJson (suite : CampaignPromptSuiteV1) :
    (promptSuiteJson suite).Shaped (depth + 1) :=
  .object (by simp) (by simp)

private theorem shaped_armJson (arm : CampaignArmV1) : (armJson arm).Shaped (depth + 2) := by
  have hprimitives : Json.Shaped (depth + 1)
      (.array (arm.primitives.map fun primitive => .string (primitiveName primitive))) :=
    .array (List.forall_mem_map.2 fun _ _ => .string _)
  exact .object (by simp) (by simp [hprimitives])

private theorem shaped_u32Array (values : List UInt32) : (u32Array values).Shaped (depth + 1) :=
  .array (List.forall_mem_map.2 fun _ _ => .unsigned _)

private theorem shaped_provenanceJson (provenance : CampaignProvenanceV1) :
    (provenanceJson provenance).Shaped (depth + 1) :=
  .object (by simp) (by simp)

private theorem shaped_hardwareJson (hardware : CampaignHardwareV1) :
    (hardwareJson hardware).Shaped (depth + 1) :=
  .object (by simp) (by simp)

end

/-! ### Records -/

theorem run_campaignRecordTag (kind : String) (members : List (String × Json)) :
    (campaignRecordTag kind).run
      (("kind", .string kind) ::
        ("schema_version", .unsigned dsv41CampaignJsonSchemaVersion.toUInt64) :: members) =
      (.ok ⟨⟩, members) := by
  rw [campaignRecordTag, run_string_bind, Outcome.require_of _ rfl, Fallible.ofExcept_ok_bind,
    Fallible.run_bind_ok (run_take _ _ _), asU64_unsigned, Except.toOption,
    Outcome.require_of _ rfl]
  rfl

/-- The quality budget of a preregistration is finite. -/
theorem Dsv41CampaignPreregistrationV1.isFinite_maxRegression
    (record : Dsv41CampaignPreregistrationV1) :
    record.qualityMetric.maxRegression.isFinite = true := by
  have h := record.valid
  simp only [Dsv41CampaignPreregistrationFieldsV1.validate, Except.bind_eq_ok_iff] at h
  obtain ⟨_, _, _, _, _, _, _, _, _, _, _, _, _, _, _, _, _, _, _, _, _, _, _, hbudget, _⟩ := h
  exact (Outcome.require_eq_ok_iff.1 hbudget).1

/-- The fields of a preregistration are accepted again. -/
theorem Dsv41CampaignPreregistrationV1.new_toFields (record : Dsv41CampaignPreregistrationV1) :
    new record.toDsv41CampaignPreregistrationFieldsV1 = .ok record := by
  unfold new
  split
  · next h => exact absurd (h.symm.trans record.valid) nofun
  · next arm h =>
    obtain rfl : arm = record.denseBaselineArm := Except.ok.inj (h.symm.trans record.valid)
    rfl

/-- Every float in a piece of evidence is finite. -/
def Dsv41CampaignEvidenceV1.Finite (record : Dsv41CampaignEvidenceV1) : Prop :=
  ∀ cell ∈ record.cells, cell.Finite

/-- What the root reader makes of a text that is not too long. -/
private theorem Encodes.parse {α : Type} {root : Reader Dsv41JsonError α}
    {encoded : Outcome Dsv41JsonError Json} {a : α}
    (h : Encodes (asObject "root" root) maxJsonDepth encoded a) :
    ∃ value, encoded = .ok value ∧ (Str.len (Json.write value) ≤ maxJsonBytes →
      parseCampaignRoot root (Json.write value) = .ok a) := by
  obtain ⟨value, hencoded, hshape, hdecode⟩ := h
  refine ⟨value, hencoded, fun hlen => ?_⟩
  rw [parseCampaignRoot, hshape.parse_eq, if_pos hlen]
  exact hdecode

section

variable {floats : FloatText} (hfloats : floats.RoundTrips)

include hfloats

private theorem encodes_preregistration (depth : ℕ) (record : Dsv41CampaignPreregistrationV1) :
    Encodes (asObject "root" (preregistrationRoot floats)) (depth + 4)
      (preregistrationJson floats record) record.toDsv41CampaignPreregistrationFieldsV1 := by
  obtain ⟨quality, hquality, hshape, hdecode⟩ :=
    encodes_qualityMetric hfloats (depth + 2) record.isFinite_maxRegression
  have harms : Json.Shaped (depth + 3) (.array (record.arms.map armJson)) :=
    .array (List.forall_mem_map.2 fun arm _ => shaped_armJson depth arm)
  refine ⟨_, by rw [preregistrationJson, hquality]; rfl,
    .object (by simp) (by simp [hshape, harms, shaped_modelJson, shaped_promptSuiteJson,
      shaped_u32Array]), ?_⟩
  rw [asObject_object, preregistrationRoot,
    Fallible.run_bind_ok (run_campaignRecordTag _ _), run_string_bind, object,
    run_read_bind (asObject_modelJson record.model), object,
    run_read_bind (asObject_promptSuiteJson record.promptSuite),
    run_read_bind (asParsed_string (parseBackend_name "backend" record.backend) _), array,
    run_read_bind (arrayOf_map fun arm _ => asObject_armJson arm), array,
    run_read_bind (arrayOf_u32Array _ _), array, run_read_bind (arrayOf_u32Array _ _),
    run_u32_bind,
    run_read_bind (asParsed_string (parseMemoryMetric_name "memory_metric" record.memoryMetric) _),
    object, run_read_bind hdecode, run_finish_bind, Fallible.run_pure]

private theorem encodes_evidence (depth : ℕ) {record : Dsv41CampaignEvidenceV1}
    (h : record.Finite) :
    Encodes (asObject "root" (evidenceRoot floats)) (depth + 4) (evidenceJson floats record)
      record := by
  obtain ⟨cells, hcells, hshape, hdecode⟩ :=
    Encodes.mapM fun cell hmem => encodes_cell hfloats depth (h cell hmem)
  have hcellsShape : Json.Shaped (depth + 3) (.array cells) := .array hshape
  have hcellsDecode : arrayOf "cells" (asObject "cells[]" (cellFrom floats)) (.array cells) =
      .ok record.cells := hdecode
  refine ⟨_, by rw [evidenceJson, hcells]; rfl,
    .object (by simp) (by simp [hcellsShape, shaped_provenanceJson, shaped_hardwareJson]), ?_⟩
  rw [asObject_object, evidenceRoot,
    Fallible.run_bind_ok (run_campaignRecordTag _ _),
    run_read_bind (asParsed_string (parseRecordKind_name record.kind) _), run_string_bind, object,
    run_read_bind (asObject_provenanceJson record.provenance), object,
    run_read_bind (asObject_hardwareJson record.hardware), array, run_read_bind hcellsDecode,
    run_finish_bind, Fallible.run_pure]

/-- A preregistration is encoded, and read back from its text if that is not too long. -/
theorem preregistrationFromJson_toJson (record : Dsv41CampaignPreregistrationV1) :
    ∃ text, preregistrationToJson floats record = .ok text ∧
      (Str.len text ≤ maxJsonBytes → preregistrationFromJson floats text = .ok record) := by
  obtain ⟨value, hvalue, hparse⟩ := (encodes_preregistration hfloats 60 record).parse
  refine ⟨Json.write value, by rw [preregistrationToJson, hvalue]; rfl, fun hlen => ?_⟩
  rw [preregistrationFromJson, hparse hlen, Except.ok_bind, record.new_toFields]
  rfl

/-- A piece of evidence with finite floats is encoded, and read back from its text if that is not
too long. -/
theorem evidenceFromJson_toJson {record : Dsv41CampaignEvidenceV1} (h : record.Finite) :
    ∃ text, evidenceToJson floats record = .ok text ∧
      (Str.len text ≤ maxJsonBytes → evidenceFromJson floats text = .ok record) := by
  obtain ⟨value, hvalue, hparse⟩ := (encodes_evidence hfloats 60 h).parse
  exact ⟨Json.write value, by rw [evidenceToJson, hvalue]; rfl, hparse⟩

end

/-- A text whose root is read is no longer than the parser takes. -/
theorem len_le_of_parseCampaignRoot {α : Type} {root : Reader Dsv41JsonError α} {text : String}
    {a : α} (h : parseCampaignRoot root text = .ok a) : Str.len text ≤ maxJsonBytes := by
  obtain ⟨value, hvalue, -⟩ := Except.bind_eq_ok_iff.1 h
  exact (Json.parse_eq_ok_iff.1 (Outcome.wrap_eq_ok_iff.1 hvalue)).1

/-- Preregistrations, and pieces of evidence with finite floats, are read back from their texts, and
what is read back has the same text. If a text is accepted, no text whose value has a field more or
a field less in some object is. -/
theorem campaignJson_correct (floats : FloatText) (hfloats : floats.RoundTrips) :
    (∀ record : Dsv41CampaignPreregistrationV1,
      ∃ text, preregistrationToJson floats record = .ok text ∧
        (Str.len text ≤ maxJsonBytes → preregistrationFromJson floats text = .ok record) ∧
        ∀ record', preregistrationFromJson floats text = .ok record' →
          preregistrationToJson floats record' = .ok text) ∧
    (∀ record : Dsv41CampaignEvidenceV1, record.Finite →
      ∃ text, evidenceToJson floats record = .ok text ∧
        (Str.len text ≤ maxJsonBytes → evidenceFromJson floats text = .ok record) ∧
        ∀ record', evidenceFromJson floats text = .ok record' →
          evidenceToJson floats record' = .ok text) ∧
    (∀ text text' value value' record, Json.parse text = .ok value →
      Json.parse text' = .ok value' → Json.FieldChange value value' →
        preregistrationFromJson floats text = .ok record →
          ∃ e, preregistrationFromJson floats text' = .raise e) ∧
    ∀ text text' value value' record, Json.parse text = .ok value →
      Json.parse text' = .ok value' → Json.FieldChange value value' →
        evidenceFromJson floats text = .ok record →
          ∃ e, evidenceFromJson floats text' = .raise e := by
  refine ⟨fun record => ?_, fun record h => ?_, ?_, ?_⟩
  · obtain ⟨text, htext, hread⟩ := preregistrationFromJson_toJson hfloats record
    refine ⟨text, htext, hread, fun record' hrecord' => ?_⟩
    obtain ⟨fields, hfields, -⟩ := Except.bind_eq_ok_iff.1 hrecord'
    have hlen := len_le_of_parseCampaignRoot hfields
    obtain rfl := Except.ok.inj ((hread hlen).symm.trans hrecord')
    exact htext
  · obtain ⟨text, htext, hread⟩ := evidenceFromJson_toJson hfloats h
    refine ⟨text, htext, hread, fun record' hrecord' => ?_⟩
    have hlen := len_le_of_parseCampaignRoot hrecord'
    obtain rfl := Except.ok.inj ((hread hlen).symm.trans hrecord')
    exact htext
  · intro text text' value value' record hvalue hvalue' hchange h
    obtain ⟨fields, hfields, -⟩ := Except.bind_eq_ok_iff.1 h
    obtain ⟨e, he⟩ := parseCampaignRoot_of_fieldChange (takes_preregistrationRoot floats)
      rigid_preregistration hvalue hvalue' hchange hfields
    exact ⟨e, by rw [preregistrationFromJson, he]; rfl⟩
  · intro text text' value value' record hvalue hvalue' hchange h
    exact parseCampaignRoot_of_fieldChange (takes_evidenceRoot floats) rigid_evidence hvalue hvalue'
      hchange h

/-- Zero is printed as it is in the source; the other numbers as their bits. -/
def bitsFloatText : FloatText where
  format x := if x = .zero false then "0.0" else toString x.toBits
  parse text :=
    if text = "0.0" then some (.zero false)
    else (Str.parseUnsigned wordLimit text).map Binary.ofBits

theorem bitsFloatText_roundTrips : bitsFloatText.RoundTrips where
  parse_format x _ := by
    by_cases hx : x = .zero false
    · simp only [bitsFloatText, hx, if_true]
    · have hne : toString x.toBits ≠ "0.0" := by
        intro heq
        have hdigits := Decimal.all_isDigit_toDigits x.toBits
        rw [← Nat.toList_repr, ← Nat.toString_eq_repr, heq] at hdigits
        exact absurd hdigits (by decide)
      have hlt : x.toBits < wordLimit := x.toBits_lt
      simp only [bitsFloatText, if_neg hx, if_neg hne, Str.parseUnsigned_toString hlt,
        Option.map_some, Binary.ofBits_toBits]
  isNumber_format x _ := by
    by_cases hx : x = .zero false
    · simp only [bitsFloatText, hx, if_true]
      exact ⟨[], ['0'], ['.', '0'], [], rfl, .inl rfl, .inl rfl,
        .inr ⟨['0'], rfl, by decide, List.all_eq_true.1 rfl⟩, .inl rfl⟩
    · simp only [bitsFloatText, if_neg hx]
      exact Decimal.isNumber_toString _

theorem campaignJson_correct_zero :
    ∃ text, evidenceToJson bitsFloatText
        ⟨.syntheticFixture, "c", ⟨"h", true, 1, true⟩, ⟨.cpu, "d", "v", "o"⟩,
          [⟨"a", 1, 1, 2, some (.zero false), none, none, none, none⟩]⟩ = .ok text ∧
      (Str.len text ≤ maxJsonBytes → evidenceFromJson bitsFloatText text =
        .ok ⟨.syntheticFixture, "c", ⟨"h", true, 1, true⟩, ⟨.cpu, "d", "v", "o"⟩,
          [⟨"a", 1, 1, 2, some (.zero false), none, none, none, none⟩]⟩) := by
  obtain ⟨-, hevidence, -⟩ := campaignJson_correct bitsFloatText bitsFloatText_roundTrips
  obtain ⟨text, htext, hread, -⟩ := hevidence
    ⟨.syntheticFixture, "c", ⟨"h", true, 1, true⟩, ⟨.cpu, "d", "v", "o"⟩,
      [⟨"a", 1, 1, 2, some (.zero false), none, none, none, none⟩]⟩
    (List.forall_mem_singleton.2 ⟨fun x hx => Option.some.inj hx ▸ by decide, nofun, nofun⟩)
  exact ⟨text, htext, hread⟩

end NNIS
