import NNIS.Core.EvidenceJson
import NNIS.Core.JsonShape

/-!
# Evidence records are read back

Each decoder takes the members of an object in the order in which the encoder writes them, so that
it finds every member in first place. A well-formed record has at most `maxEvidenceSuites` suites
and texts of at most `maxEvidenceTextBytes` bytes, which keeps its text far below the length that
the parser takes.

## Main results

* `PortableAdapterEvidenceV1.WellFormed.len_toJson_le`,
  `PortableCpuHostEvidenceV1.WellFormed.len_toJson_le` — the texts of well-formed records are short.
* `adapterEvidenceFromJson_toJson`, `cpuHostEvidenceFromJson_toJson` — a reader on a record of its
  own kind.
* `cpuHostEvidenceFromJson_adapterEvidenceToJson`, `adapterEvidenceFromJson_cpuHostEvidenceToJson` —
  a reader on a record of the other kind.
* `evidenceJson_roundTrip`.
-/

set_option autoImplicit false

namespace NNIS

open JsonObject

theorem AdapterClassV1.parse_name (cls : AdapterClassV1) : parse cls.name = some cls := by
  cases cls <;> rfl

theorem SuiteOutcomeV1.parse_name (outcome : SuiteOutcomeV1) :
    parse outcome.name = some outcome := by
  cases outcome <;> rfl

theorem asVariant_string {α : Type} {parse : String → Option α} {text : String} {a : α}
    (h : parse text = some a) (field : String) : asVariant field parse (.string text) = .ok a := by
  have hstring : (asString field (.string text) : Outcome AdapterEvidenceJsonError String) =
      .ok text := rfl
  simp only [asVariant, hstring, Except.ok_bind, h]
  rfl

theorem asObject_sourceJson (source : EvidenceSourceV1) :
    asObject "source" sourceFrom (sourceJson source) = .ok source := by
  simp only [sourceJson, asObject_object, sourceFrom, run_string_bind, run_bool_bind,
    run_finish_bind, Fallible.run_pure]

theorem asObject_suiteJson (suite : SuiteResultV1) :
    asObject "suites" suiteFrom (suiteJson suite) = .ok suite := by
  simp only [suiteJson, asObject_object, suiteFrom, run_string_bind, run_u64_bind, run_finish_bind,
    Fallible.run_pure, run_read_bind (asVariant_string suite.outcome.parse_name "outcome")]

theorem asObject_adapterJson (adapter : AdapterIdentityV1) :
    asObject "adapter" adapterFrom (adapterJson adapter) = .ok adapter := by
  simp only [adapterJson, asObject_object, adapterFrom, run_string_bind, run_u32_bind,
    run_finish_bind,
    Fallible.run_pure, run_read_bind (asVariant_string adapter.class.parse_name "class")]

theorem asObject_hostJson (host : CpuHostIdentityV1) :
    asObject "host" hostFrom (hostJson host) = .ok host := by
  simp only [hostJson, asObject_object, hostFrom, run_string_bind, run_u32_bind, run_finish_bind,
    Fallible.run_pure]

theorem arrayOf_suitesJson (suites : List SuiteResultV1) :
    arrayOf "suites" (asObject "suites" suiteFrom) (suitesJson suites) = .ok suites :=
  arrayOf_map fun suite _ => asObject_suiteJson suite

theorem run_recordTag (kind : String) (schemaVersion : UInt32) (members : List (String × Json)) :
    (recordTag kind schemaVersion).run
      (("kind", .string kind) :: ("schema_version", .unsigned schemaVersion.toUInt64) :: members) =
      (.ok ⟨⟩, members) := by
  have hversion (version : UInt64) :
      (u64 "schema_version" : Reader AdapterEvidenceJsonError UInt64).attempt.run
        (("schema_version", .unsigned version) :: members) = (.ok (.ok version), members) := by
    rw [Fallible.run_attempt, u64, run_read, asU64_unsigned]
  rw [recordTag, run_string_bind, Outcome.require_of _ rfl, Fallible.ofExcept_ok_bind,
    Fallible.run_bind_ok (hversion _), Except.toOption, Outcome.require_of _ rfl]
  rfl

/-- The tag of another kind of record is refused. -/
theorem run_recordTag_of_ne {kind kind' : String} (h : kind' ≠ kind) (schemaVersion : UInt32)
    (members : List (String × Json)) :
    (recordTag kind schemaVersion).run (("kind", .string kind') :: members) =
      (.error (.error .wrongKind), members) := by
  rw [recordTag, run_string_bind, Outcome.require_of_not _ h]
  rfl

/-! ### Records -/

private theorem asObject_adapterEvidenceJson (record : PortableAdapterEvidenceV1) :
    asObject "root" adapterEvidenceRoot (adapterEvidenceJson record) = .ok record := by
  rw [adapterEvidenceJson, recordJson, asObject_object, adapterEvidenceRoot,
    Fallible.run_bind_ok (run_recordTag _ _ _), object,
    run_read_bind (asObject_sourceJson record.source), object,
    run_read_bind (asObject_adapterJson record.adapter), array,
    run_read_bind (arrayOf_suitesJson record.suites), run_finish_bind, Fallible.run_pure]

private theorem asObject_cpuHostEvidenceJson (record : PortableCpuHostEvidenceV1) :
    asObject "root" cpuHostEvidenceRoot (cpuHostEvidenceJson record) = .ok record := by
  rw [cpuHostEvidenceJson, recordJson, asObject_object, cpuHostEvidenceRoot,
    Fallible.run_bind_ok (run_recordTag _ _ _), object,
    run_read_bind (asObject_sourceJson record.source), object,
    run_read_bind (asObject_hostJson record.host), array,
    run_read_bind (arrayOf_suitesJson record.suites), run_finish_bind, Fallible.run_pure]

/-! ### Shapes -/

section

variable (depth : ℕ)

private theorem shaped_sourceJson (source : EvidenceSourceV1) :
    (sourceJson source).Shaped (depth + 1) :=
  .object (by simp) (by simp)

private theorem shaped_suitesJson (suites : List SuiteResultV1) :
    (suitesJson suites).Shaped (depth + 2) :=
  .array (List.forall_mem_map.2 fun suite _ => .object (by simp) (by simp))

private theorem shaped_adapterJson (adapter : AdapterIdentityV1) :
    (adapterJson adapter).Shaped (depth + 1) :=
  .object (by simp) (by simp)

private theorem shaped_hostJson (host : CpuHostIdentityV1) :
    (hostJson host).Shaped (depth + 1) :=
  .object (by simp) (by simp)

private theorem shaped_adapterEvidenceJson (record : PortableAdapterEvidenceV1) :
    (adapterEvidenceJson record).Shaped (depth + 3) :=
  .object (by simp) (by simp [shaped_sourceJson, shaped_adapterJson, shaped_suitesJson])

private theorem shaped_cpuHostEvidenceJson (record : PortableCpuHostEvidenceV1) :
    (cpuHostEvidenceJson record).Shaped (depth + 3) :=
  .object (by simp) (by simp [shaped_sourceJson, shaped_hostJson, shaped_suitesJson])

end

/-! ### Lengths -/

/-- The length of the text of a member that is not an object or an array. -/
private abbrev leafBound : ℕ := 6 * maxEvidenceTextBytes + 2

private theorem bounded_text {text : String} (h : CanonicalText text) :
    Json.Bounded leafBound (.string text) :=
  .string h.1

private theorem bounded_short {text : String} {limit : ℕ} (h : Str.len text ≤ limit)
    (hle : limit ≤ maxEvidenceTextBytes) : Json.Bounded leafBound (.string text) :=
  .string (Nat.le_trans h hle)

private theorem bounded_unsigned (value : UInt64) : Json.Bounded leafBound (.unsigned value) :=
  (Json.Bounded.unsigned value).mono (by decide)

private theorem bounded_sourceJson {source : EvidenceSourceV1} (h : source.WellFormed) :
    (sourceJson source).Bounded 20000 := by
  refine (Json.Bounded.object 5 16 leafBound rfl ?_).mono (by decide)
  simp only [List.forall_mem_cons, List.not_mem_nil, false_implies, implies_true, and_true]
  exact ⟨⟨by decide, bounded_short (Nat.le_of_eq h.len_gitCommit) (by decide)⟩,
    ⟨by decide, (Json.Bounded.bool _).mono (by decide)⟩, ⟨by decide, bounded_text h.crateVersion.2⟩,
    ⟨by decide, bounded_text h.toolchain.2⟩, ⟨by decide, bounded_text h.target.2⟩⟩

private theorem bounded_adapterJson {adapter : AdapterIdentityV1} (h : adapter.WellFormed) :
    (adapterJson adapter).Bounded 40000 := by
  have hclass : Str.len adapter.class.name ≤ 8 := by
    cases adapter.class <;> decide
  refine (Json.Bounded.object 9 16 leafBound rfl ?_).mono (by decide)
  simp only [List.forall_mem_cons, List.not_mem_nil, false_implies, implies_true, and_true]
  exact ⟨⟨by decide, bounded_text h.backendFamily.2⟩, ⟨by decide, bounded_text h.apiBackend.2⟩,
    ⟨by decide, bounded_text h.name.2⟩, ⟨by decide, bounded_text h.deviceType.2⟩,
    ⟨by decide, bounded_unsigned _⟩, ⟨by decide, bounded_unsigned _⟩,
    ⟨by decide, bounded_text h.driver⟩, ⟨by decide, bounded_text h.driverInfo⟩,
    ⟨by decide, bounded_short hclass (by decide)⟩⟩

private theorem bounded_hostJson {host : CpuHostIdentityV1} (h : host.WellFormed) :
    (hostJson host).Bounded 20000 := by
  have hendian : Str.len host.endian ≤ 6 := by
    rcases h.endian with hlittle | hbig
    · exact hlittle ▸ by decide
    · exact hbig ▸ by decide
  refine (Json.Bounded.object 5 16 leafBound rfl ?_).mono (by decide)
  simp only [List.forall_mem_cons, List.not_mem_nil, false_implies, implies_true, and_true]
  exact ⟨⟨by decide, bounded_text h.arch.2⟩, ⟨by decide, bounded_text h.os.2⟩,
    ⟨by decide, bounded_short hendian (by decide)⟩, ⟨by decide, bounded_unsigned _⟩,
    ⟨by decide, bounded_text h.cpuModel⟩⟩

private theorem bounded_suitesJson {suites : List SuiteResultV1} (h : SuitesWellFormed suites) :
    (suitesJson suites).Bounded 1300000 := by
  have hsuite : ∀ suite ∈ suites, (suiteJson suite).Bounded 20000 := by
    intro suite hmem
    have hwf := h.suite suite hmem
    have hid : Str.len suite.suiteId ≤ 64 := by
      have hvalid := hwf.suiteId
      simp only [validSuiteId, Bool.and_eq_true, decide_eq_true_eq] at hvalid
      exact hvalid.1.2
    have houtcome : Str.len suite.outcome.name ≤ 4 := by
      cases suite.outcome <;> decide
    refine (Json.Bounded.object 6 16 leafBound rfl ?_).mono (by decide)
    simp only [List.forall_mem_cons, List.not_mem_nil, false_implies, implies_true, and_true]
    exact ⟨⟨by decide, bounded_short hid (by decide)⟩,
      ⟨by decide, bounded_short houtcome (by decide)⟩, ⟨by decide, bounded_unsigned _⟩,
      ⟨by decide, bounded_unsigned _⟩, ⟨by decide, bounded_text hwf.tolerance.2⟩,
      ⟨by decide, bounded_text hwf.detail⟩⟩
  have hlength : suites.length ≤ 64 := h.length_le
  refine (Json.Bounded.array (List.forall_mem_map.2 hsuite)).mono ?_
  rw [List.length_map]
  omega

/-- The text of a record is short if those of its own members are. -/
private theorem len_recordJson_le {kind : String} (hkind : Str.len kind ≤ maxEvidenceTextBytes)
    (schemaVersion : UInt32) {source identity suites : Json} {name : String}
    (hname : Str.len name ≤ 16) (hsource : source.Bounded 20000)
    (hidentity : identity.Bounded 40000)
    (hsuites : suites.Bounded 1300000) :
    Str.len (Json.write (recordJson kind schemaVersion
      [("source", source), (name, identity), ("suites", suites)])) ≤ maxJsonBytes := by
  refine (Json.Bounded.object 5 16 1300000 rfl ?_).mono (by decide)
  simp only [List.forall_mem_cons, List.not_mem_nil, false_implies, implies_true, and_true]
  exact ⟨⟨by decide, (bounded_short hkind (Nat.le_refl _)).mono (by decide)⟩,
    ⟨by decide, (bounded_unsigned _).mono (by decide)⟩, ⟨by decide, hsource.mono (by decide)⟩,
    ⟨hname, hidentity.mono (by decide)⟩, ⟨by decide, hsuites⟩⟩

/-- The text of a well-formed record is one that the parser takes. -/
theorem PortableAdapterEvidenceV1.WellFormed.len_toJson_le {record : PortableAdapterEvidenceV1}
    (h : record.WellFormed) : Str.len (adapterEvidenceToJson record) ≤ maxJsonBytes :=
  len_recordJson_le (by decide) _ (by decide) (bounded_sourceJson h.source)
    (bounded_adapterJson h.adapter) (bounded_suitesJson h.suites)

theorem PortableCpuHostEvidenceV1.WellFormed.len_toJson_le {record : PortableCpuHostEvidenceV1}
    (h : record.WellFormed) : Str.len (cpuHostEvidenceToJson record) ≤ maxJsonBytes :=
  len_recordJson_le (by decide) _ (by decide) (bounded_sourceJson h.source)
    ((bounded_hostJson h.host).mono (by decide)) (bounded_suitesJson h.suites)

/-! ### Texts -/

/-- What a reader of records makes of the text of a value: it reads the value itself, or refuses the
text because it is too long. -/
theorem parseRoot_write {α : Type} (root : Reader AdapterEvidenceJsonError α) {value : Json}
    (h : value.Shaped maxJsonDepth) :
    parseRoot root (Json.write value) =
      if Str.len (Json.write value) ≤ maxJsonBytes then asObject "root" root value
      else .raise (.syntaxError 0 "input too large") := by
  rw [parseRoot, h.parse_eq]
  split_ifs with hlen
  · rfl
  · rfl

/-- The reader of adapter records on the text of an adapter record. -/
theorem adapterEvidenceFromJson_toJson (record : PortableAdapterEvidenceV1) :
    adapterEvidenceFromJson (adapterEvidenceToJson record) =
      if Str.len (adapterEvidenceToJson record) ≤ maxJsonBytes then .ok record
      else .raise (.syntaxError 0 "input too large") := by
  have hread := parseRoot_write adapterEvidenceRoot
    (shaped_adapterEvidenceJson 61 record)
  rwa [asObject_adapterEvidenceJson] at hread

theorem cpuHostEvidenceFromJson_toJson (record : PortableCpuHostEvidenceV1) :
    cpuHostEvidenceFromJson (cpuHostEvidenceToJson record) =
      if Str.len (cpuHostEvidenceToJson record) ≤ maxJsonBytes then .ok record
      else .raise (.syntaxError 0 "input too large") := by
  have hread := parseRoot_write cpuHostEvidenceRoot
    (shaped_cpuHostEvidenceJson 61 record)
  rwa [asObject_cpuHostEvidenceJson] at hread

/-- The reader of CPU host records on the text of an adapter record. -/
theorem cpuHostEvidenceFromJson_adapterEvidenceToJson (record : PortableAdapterEvidenceV1) :
    cpuHostEvidenceFromJson (adapterEvidenceToJson record) =
      if Str.len (adapterEvidenceToJson record) ≤ maxJsonBytes then .raise .wrongKind
      else .raise (.syntaxError 0 "input too large") := by
  have hkind : asObject "root" cpuHostEvidenceRoot (adapterEvidenceJson record) =
      .raise .wrongKind := by
    rw [adapterEvidenceJson, recordJson, asObject_object, cpuHostEvidenceRoot,
      Fallible.run_bind_error (run_recordTag_of_ne (by decide) _ _)]
    rfl
  have hread := parseRoot_write cpuHostEvidenceRoot (shaped_adapterEvidenceJson 61 record)
  rwa [hkind] at hread

theorem adapterEvidenceFromJson_cpuHostEvidenceToJson (record : PortableCpuHostEvidenceV1) :
    adapterEvidenceFromJson (cpuHostEvidenceToJson record) =
      if Str.len (cpuHostEvidenceToJson record) ≤ maxJsonBytes then .raise .wrongKind
      else .raise (.syntaxError 0 "input too large") := by
  have hkind : asObject "root" adapterEvidenceRoot (cpuHostEvidenceJson record) =
      .raise .wrongKind := by
    rw [cpuHostEvidenceJson, recordJson, asObject_object, adapterEvidenceRoot,
      Fallible.run_bind_error (run_recordTag_of_ne (by decide) _ _)]
    rfl
  have hread := parseRoot_write adapterEvidenceRoot (shaped_cpuHostEvidenceJson 61 record)
  rwa [hkind] at hread

/-- A well-formed record, or any record whose text is no longer than the parser takes, is read back
from its text. Whatever a reader reads back from the text of a record has the same text and the
same verdicts. No reader accepts the text of a record of the other kind. -/
theorem evidenceJson_roundTrip :
    (∀ record : PortableAdapterEvidenceV1,
      record.WellFormed ∨ Str.len (adapterEvidenceToJson record) ≤ maxJsonBytes →
        adapterEvidenceFromJson (adapterEvidenceToJson record) = .ok record) ∧
    (∀ record : PortableCpuHostEvidenceV1,
      record.WellFormed ∨ Str.len (cpuHostEvidenceToJson record) ≤ maxJsonBytes →
        cpuHostEvidenceFromJson (cpuHostEvidenceToJson record) = .ok record) ∧
    (∀ record record' : PortableAdapterEvidenceV1,
      adapterEvidenceFromJson (adapterEvidenceToJson record) = .ok record' →
        adapterEvidenceToJson record' = adapterEvidenceToJson record ∧
        ∀ requiredSuites, validateAdapterEvidence record' requiredSuites =
          validateAdapterEvidence record requiredSuites) ∧
    (∀ record record' : PortableCpuHostEvidenceV1,
      cpuHostEvidenceFromJson (cpuHostEvidenceToJson record) = .ok record' →
        cpuHostEvidenceToJson record' = cpuHostEvidenceToJson record ∧
        ∀ requiredSuites, validateCpuHostEvidence record' requiredSuites =
          validateCpuHostEvidence record requiredSuites) ∧
    (∀ record : PortableAdapterEvidenceV1,
      ∃ e, cpuHostEvidenceFromJson (adapterEvidenceToJson record) = .raise e) ∧
    ∀ record : PortableCpuHostEvidenceV1,
      ∃ e, adapterEvidenceFromJson (cpuHostEvidenceToJson record) = .raise e := by
  refine ⟨fun record h => ?_, fun record h => ?_, fun record record' h => ?_,
    fun record record' h => ?_, fun record => ?_, fun record => ?_⟩
  · have hlen := h.elim PortableAdapterEvidenceV1.WellFormed.len_toJson_le id
    rw [adapterEvidenceFromJson_toJson, if_pos hlen]
  · have hlen := h.elim PortableCpuHostEvidenceV1.WellFormed.len_toJson_le id
    rw [cpuHostEvidenceFromJson_toJson, if_pos hlen]
  · rw [adapterEvidenceFromJson_toJson] at h
    split_ifs at h with hlen
    · obtain rfl := Except.ok.inj h
      exact ⟨rfl, fun _ => rfl⟩
    · exact nomatch h
  · rw [cpuHostEvidenceFromJson_toJson] at h
    split_ifs at h with hlen
    · obtain rfl := Except.ok.inj h
      exact ⟨rfl, fun _ => rfl⟩
    · exact nomatch h
  · rw [cpuHostEvidenceFromJson_adapterEvidenceToJson, ← apply_ite Outcome.raise]
    exact ⟨_, rfl⟩
  · rw [adapterEvidenceFromJson_cpuHostEvidenceToJson, ← apply_ite Outcome.raise]
    exact ⟨_, rfl⟩

end NNIS
