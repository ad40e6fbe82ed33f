import NNIS.Semantics.Outcome
import NNIS.Text.Str

/-!
# Adapter evidence

The records and the validator of `nnis-core/src/adapter_evidence.rs`: a record holds one run of the
parity suites of a backend on one adapter, and its validator either refuses it or returns a verdict.
The checks of the source identity and of the suites are shared with the records of
`nnis-core/src/host_evidence.rs`: such a record holds one run of the qualification suites of the CPU
reference on one host.

## Main definitions

* `EvidenceSourceV1`, `AdapterIdentityV1`, `SuiteResultV1`, `PortableAdapterEvidenceV1`.
* `validateSource`, `validateSuite`, `summarizeSuites`, `validateAdapterEvidence`.
* `SuitesWellFormed`, `AdapterIdentityV1.WellFormed`, `PortableAdapterEvidenceV1.WellFormed` — what
  an accepted record looks like.
* `CpuHostIdentityV1`, `PortableCpuHostEvidenceV1`, `validateCpuHostEvidence`.
* `CpuHostIdentityV1.WellFormed`, `PortableCpuHostEvidenceV1.WellFormed`.

## Main results

* `validateSource_eq_ok_iff`, `summarizeSuites_eq_ok_iff`, `validateAdapterEvidence_eq_ok_iff`,
  `validateCpuHostEvidence_eq_ok_iff` — the validators return exactly on well-formed records, and
  the value is a function of the record.
-/

set_option autoImplicit false

namespace NNIS

/-- Maximum byte length of any free-text field. -/
def maxEvidenceTextBytes : ℕ := 512

/-- Maximum number of suites in one record. -/
def maxEvidenceSuites : ℕ := 64

/-- Adapter names or drivers containing these markers are software adapters. -/
def softwareAdapterMarkers : List String :=
  ["llvmpipe", "lavapipe", "swiftshader", "softpipe", "warp"]

/-- Adapter classification recorded by the harness. -/
inductive AdapterClassV1
  | hardware
  | software
  | unknown
  deriving DecidableEq

/-- Outcome of one parity suite. -/
inductive SuiteOutcomeV1
  | pass
  | fail
  | skip
  deriving DecidableEq

/-- Exact source and environment identity of the run. -/
structure EvidenceSourceV1 where
  gitCommit : String
  worktreeClean : Bool
  crateVersion : String
  toolchain : String
  target : String
  deriving DecidableEq

/-- Adapter identity as reported by the backend driver. -/
structure AdapterIdentityV1 where
  backendFamily : String
  apiBackend : String
  name : String
  deviceType : String
  vendorId : UInt32
  deviceId : UInt32
  driver : String
  driverInfo : String
  «class» : AdapterClassV1
  deriving DecidableEq

/-- Result of one parity suite against the CPU reference. -/
structure SuiteResultV1 where
  suiteId : String
  outcome : SuiteOutcomeV1
  checks : UInt64
  mismatches : UInt64
  tolerance : String
  detail : String
  deriving DecidableEq

/-- One adapter evidence record. -/
structure PortableAdapterEvidenceV1 where
  source : EvidenceSourceV1
  adapter : AdapterIdentityV1
  suites : List SuiteResultV1
  deriving DecidableEq

/-- Verdict of a structurally valid record. -/
inductive AdapterEvidenceVerdictV1
  | hardwareParityObserved
  | codePathOnlySoftwareAdapter
  | unclassifiedAdapter
  | dirtyWorktree
  | incomplete (suiteIds : List String)
  | failed (suiteIds : List String)
  deriving DecidableEq

/-- Structural errors of an evidence record. -/
inductive AdapterEvidenceError
  | invalidGitCommit
  | emptyField (field : String)
  | fieldTooLong (field : String)
  | nonCanonicalField (field : String)
  | noSuites
  | tooManySuites
  | invalidSuiteId (suiteId : String)
  | duplicateSuite (suiteId : String)
  | invalidRequiredSuite (suiteId : String)
  | mismatchesExceedChecks (suiteId : String)
  | passWithMismatches (suiteId : String)
  | passWithoutChecks (suiteId : String)
  | skipWithChecks (suiteId : String)
  | missingDetail (suiteId : String)
  | hardwareClassConflict
  | invalidHostField (field : String)
  | hostTargetMismatch
  deriving DecidableEq

/-- The text of an error; `debug` is the quoted form of a text. -/
def AdapterEvidenceError.text (debug : String → String) : AdapterEvidenceError → String
  | invalidGitCommit => "git_commit must be 40 lowercase hexadecimal characters"
  | emptyField field => s!"field {field} is empty"
  | fieldTooLong field => s!"field {field} is too long"
  | nonCanonicalField field =>
    s!"field {field} has surrounding whitespace or control characters"
  | noSuites => "record has no suites"
  | tooManySuites => "record has too many suites"
  | invalidSuiteId suiteId => s!"invalid suite id {debug suiteId}"
  | duplicateSuite suiteId => s!"duplicate suite {suiteId}"
  | invalidRequiredSuite suiteId => s!"invalid required suite id {debug suiteId}"
  | mismatchesExceedChecks suiteId => s!"suite {suiteId} has more mismatches than checks"
  | passWithMismatches suiteId => s!"suite {suiteId} passed with mismatches"
  | passWithoutChecks suiteId => s!"suite {suiteId} passed without checks"
  | skipWithChecks suiteId => s!"skipped suite {suiteId} reports checks"
  | missingDetail suiteId => s!"failed or skipped suite {suiteId} has no detail"
  | hardwareClassConflict =>
    "hardware class claimed for a CPU device type or a known software adapter"
  | invalidHostField field => s!"host field {field} has an unsupported value"
  | hostTargetMismatch => "source target does not name the host architecture"

/-! ### Fields -/

def optionalText (field value : String) : Outcome AdapterEvidenceError PUnit := do
  .require (Str.len value ≤ maxEvidenceTextBytes) (.fieldTooLong field)
  .require (Str.trim value = value ∧ value.toList.any Str.isControl = false)
    (.nonCanonicalField field)

def requiredText (field value : String) : Outcome AdapterEvidenceError PUnit := do
  .require (value ≠ "") (.emptyField field)
  optionalText field value

/-- Validate the source identity shared by portable evidence records. -/
def validateSource (source : EvidenceSourceV1) : Outcome AdapterEvidenceError PUnit := do
  .require (Str.len source.gitCommit = 40 ∧ source.gitCommit.toList.all Str.isLowerHex = true)
    .invalidGitCommit
  requiredText "crate_version" source.crateVersion
  requiredText "toolchain" source.toolchain
  requiredText "target" source.target

def isSuiteIdChar (c : Char) : Bool :=
  ('a' ≤ c && c ≤ 'z') || ('0' ≤ c && c ≤ '9') || c == '.' || c == '_' || c == '-'

def validSuiteId (id : String) : Bool :=
  id ≠ "" && Str.len id ≤ 64 && id.toList.all isSuiteIdChar

/-- Whether an adapter name or driver identifies a known software implementation. -/
def isKnownSoftwareAdapter (name driver : String) : Bool :=
  let name := Str.toAsciiLowercase name
  let driver := Str.toAsciiLowercase driver
  softwareAdapterMarkers.any fun marker => Str.contains name marker || Str.contains driver marker

/-! ### Suites -/

/-- Outcome summary of structurally valid suites. -/
inductive SuiteSummary
  | failed (suiteIds : List String)
  | incomplete (suiteIds : List String)
  | allRequiredPassed

/-- The checks of a suite that depend on its outcome. -/
def validateOutcome (suite : SuiteResultV1) : Outcome AdapterEvidenceError PUnit :=
  match suite.outcome with
  | .pass => do
    .require (suite.mismatches = 0) (.passWithMismatches suite.suiteId)
    .require (suite.checks ≠ 0) (.passWithoutChecks suite.suiteId)
  | .skip => do
    .require (suite.checks = 0 ∧ suite.mismatches = 0) (.skipWithChecks suite.suiteId)
    .require (suite.detail ≠ "") (.missingDetail suite.suiteId)
  | .fail => .require (suite.detail ≠ "") (.missingDetail suite.suiteId)

/-- The checks of one suite, at its place in the list. -/
def validateSuite (suites : List SuiteResultV1) (entry : SuiteResultV1 × ℕ) :
    Outcome AdapterEvidenceError PUnit := do
  let (suite, index) := entry
  .require (validSuiteId suite.suiteId = true) (.invalidSuiteId suite.suiteId)
  .require (∀ other ∈ suites.take index, other.suiteId ≠ suite.suiteId)
    (.duplicateSuite suite.suiteId)
  requiredText "tolerance" suite.tolerance
  optionalText "detail" suite.detail
  .require (suite.mismatches ≤ suite.checks) (.mismatchesExceedChecks suite.suiteId)
  validateOutcome suite

/-- The suites that failed. -/
def failedSuites (suites : List SuiteResultV1) : List String :=
  (suites.filter fun suite => suite.outcome = .fail).map SuiteResultV1.suiteId

/-- The required suites that are missing or did not pass. -/
def incompleteSuites (suites : List SuiteResultV1) (requiredSuites : List String) : List String :=
  requiredSuites.filter fun required =>
    !suites.any fun suite => suite.suiteId == required && suite.outcome == .pass

/-- Summarize the outcomes of valid suites. -/
def suiteSummary (suites : List SuiteResultV1) (requiredSuites : List String) : SuiteSummary :=
  if failedSuites suites ≠ [] then .failed (failedSuites suites)
  else if incompleteSuites suites requiredSuites ≠ [] then
    .incomplete (incompleteSuites suites requiredSuites)
  else .allRequiredPassed

/-- Validate suites and required ids, then summarize outcomes. -/
def summarizeSuites (suites : List SuiteResultV1) (requiredSuites : List String) :
    Outcome AdapterEvidenceError SuiteSummary := do
  .require (suites ≠ []) .noSuites
  .require (suites.length ≤ maxEvidenceSuites) .tooManySuites
  suites.zipIdx.forM (validateSuite suites)
  requiredSuites.forM fun required =>
    .require (validSuiteId required = true) (.invalidRequiredSuite required)
  pure (suiteSummary suites requiredSuites)

/-! ### Adapters -/

/-- A hardware class is claimed for a CPU device type or a software adapter. -/
def AdapterIdentityV1.ClassConflict (adapter : AdapterIdentityV1) : Prop :=
  adapter.class = .hardware ∧ (Str.eqIgnoreAsciiCase adapter.deviceType "cpu" = true ∨
    isKnownSoftwareAdapter adapter.name adapter.driver = true)

instance (adapter : AdapterIdentityV1) : Decidable adapter.ClassConflict :=
  inferInstanceAs (Decidable (_ ∧ _))

/-- The verdict on summarized suites, from the state of the worktree and the adapter class. -/
def adapterVerdict (summary : SuiteSummary) (worktreeClean : Bool) (adapterClass : AdapterClassV1) :
    AdapterEvidenceVerdictV1 :=
  match summary with
  | .failed suiteIds => .failed suiteIds
  | .incomplete suiteIds => .incomplete suiteIds
  | .allRequiredPassed =>
    if !worktreeClean then .dirtyWorktree
    else match adapterClass with
      | .hardware => .hardwareParityObserved
      | .software => .codePathOnlySoftwareAdapter
      | .unknown => .unclassifiedAdapter

/-- Validate a record against the suites that must pass, returning its verdict. -/
def validateAdapterEvidence (record : PortableAdapterEvidenceV1) (requiredSuites : List String) :
    Outcome AdapterEvidenceError AdapterEvidenceVerdictV1 := do
  let adapter := record.adapter
  validateSource record.source
  requiredText "backend_family" adapter.backendFamily
  requiredText "api_backend" adapter.apiBackend
  requiredText "adapter_name" adapter.name
  requiredText "device_type" adapter.deviceType
  optionalText "driver" adapter.driver
  optionalText "driver_info" adapter.driverInfo
  .require (¬ adapter.ClassConflict) .hardwareClassConflict
  let summary ← summarizeSuites record.suites requiredSuites
  pure (adapterVerdict summary record.source.worktreeClean adapter.class)

/-! ### Well-formed records -/

/-- A text without surrounding white space or control characters, and not too long. -/
def CanonicalText (value : String) : Prop :=
  Str.len value ≤ maxEvidenceTextBytes ∧ Str.trim value = value ∧
    ∀ c ∈ value.toList, Str.isControl c = false

/-- The identity of a source names a commit and an environment. -/
structure EvidenceSourceV1.WellFormed (source : EvidenceSourceV1) : Prop where
  len_gitCommit : Str.len source.gitCommit = 40
  gitCommit : ∀ c ∈ source.gitCommit.toList, Str.isLowerHex c = true
  crateVersion : source.crateVersion ≠ "" ∧ CanonicalText source.crateVersion
  toolchain : source.toolchain ≠ "" ∧ CanonicalText source.toolchain
  target : source.target ≠ "" ∧ CanonicalText source.target

/-- The identity of an adapter is canonical text. -/
structure AdapterIdentityV1.WellFormed (adapter : AdapterIdentityV1) : Prop where
  backendFamily : adapter.backendFamily ≠ "" ∧ CanonicalText adapter.backendFamily
  apiBackend : adapter.apiBackend ≠ "" ∧ CanonicalText adapter.apiBackend
  name : adapter.name ≠ "" ∧ CanonicalText adapter.name
  deviceType : adapter.deviceType ≠ "" ∧ CanonicalText adapter.deviceType
  driver : CanonicalText adapter.driver
  driverInfo : CanonicalText adapter.driverInfo

/-- The counts of a suite agree with its outcome, and a suite that did not pass says why. -/
structure SuiteResultV1.WellFormed (suite : SuiteResultV1) : Prop where
  suiteId : validSuiteId suite.suiteId = true
  tolerance : suite.tolerance ≠ "" ∧ CanonicalText suite.tolerance
  detail : CanonicalText suite.detail
  mismatches_le : suite.mismatches ≤ suite.checks
  pass : suite.outcome = .pass → suite.mismatches = 0 ∧ suite.checks ≠ 0
  skip : suite.outcome = .skip → suite.checks = 0 ∧ suite.mismatches = 0
  detail_ne : suite.outcome ≠ .pass → suite.detail ≠ ""

/-- The suites of a record are well formed and have distinct names. -/
structure SuitesWellFormed (suites : List SuiteResultV1) : Prop where
  ne_nil : suites ≠ []
  length_le : suites.length ≤ maxEvidenceSuites
  suite : ∀ suite ∈ suites, suite.WellFormed
  nodup : (suites.map SuiteResultV1.suiteId).Nodup

/-- A well-formed record. -/
structure PortableAdapterEvidenceV1.WellFormed (record : PortableAdapterEvidenceV1) : Prop where
  source : record.source.WellFormed
  adapter : record.adapter.WellFormed
  suites : SuitesWellFormed record.suites

/-! ### What the validators accept -/

theorem optionalText_eq_ok_iff {field value : String} {u : PUnit} :
    optionalText field value = .ok u ↔ CanonicalText value := by
  simp only [optionalText, Except.bind_eq_ok_iff, Outcome.require_eq_ok_iff, exists_const,
    List.any_eq_false, Bool.not_eq_true, CanonicalText]

theorem requiredText_eq_ok_iff {field value : String} {u : PUnit} :
    requiredText field value = .ok u ↔ value ≠ "" ∧ CanonicalText value := by
  simp only [requiredText, Except.bind_eq_ok_iff, Outcome.require_eq_ok_iff, exists_const,
    optionalText_eq_ok_iff]

theorem validateSource_eq_ok_iff {source : EvidenceSourceV1} {u : PUnit} :
    validateSource source = .ok u ↔ source.WellFormed := by
  simp only [validateSource, Except.bind_eq_ok_iff, Outcome.require_eq_ok_iff, exists_const,
    requiredText_eq_ok_iff, List.all_eq_true]
  exact ⟨fun ⟨⟨hlen, hhex⟩, hversion, htoolchain, htarget⟩ =>
      ⟨hlen, hhex, hversion, htoolchain, htarget⟩,
    fun h => ⟨⟨h.len_gitCommit, h.gitCommit⟩, h.crateVersion, h.toolchain, h.target⟩⟩

theorem validateOutcome_eq_ok_iff {suite : SuiteResultV1} {u : PUnit} :
    validateOutcome suite = .ok u ↔
      (suite.outcome = .pass → suite.mismatches = 0 ∧ suite.checks ≠ 0) ∧
      (suite.outcome = .skip → suite.checks = 0 ∧ suite.mismatches = 0) ∧
      (suite.outcome ≠ .pass → suite.detail ≠ "") := by
  unfold validateOutcome
  cases suite.outcome <;>
    simp only [Except.bind_eq_ok_iff, Outcome.require_eq_ok_iff, exists_const, reduceCtorEq,
      ne_eq, not_true_eq_false, not_false_eq_true, false_implies, true_and, and_true,
      forall_const]

/-- A suite is accepted if it is well formed and its name is new. -/
theorem validateSuite_eq_ok_iff {suites : List SuiteResultV1} {suite : SuiteResultV1} {index : ℕ}
    {u : PUnit} : validateSuite suites (suite, index) = .ok u ↔
      suite.WellFormed ∧ ∀ other ∈ suites.take index, other.suiteId ≠ suite.suiteId := by
  simp only [validateSuite, Except.bind_eq_ok_iff, Outcome.require_eq_ok_iff, exists_const,
    requiredText_eq_ok_iff, optionalText_eq_ok_iff, validateOutcome_eq_ok_iff]
  constructor
  · rintro ⟨hid, hfresh, htolerance, hdetail, hle, hpass, hskip, hne⟩
    exact ⟨⟨hid, htolerance, hdetail, hle, hpass, hskip, hne⟩, hfresh⟩
  · rintro ⟨h, hfresh⟩
    exact ⟨h.suiteId, hfresh, h.tolerance, h.detail, h.mismatches_le, h.pass, h.skip, h.detail_ne⟩

/-- Suites that are accepted one by one have distinct names, and conversely. -/
private theorem nodup_suiteId_iff {suites : List SuiteResultV1} :
    (suites.map SuiteResultV1.suiteId).Nodup ↔
      ∀ index (h : index < suites.length), ∀ other ∈ suites.take index,
        other.suiteId ≠ suites[index].suiteId := by
  rw [List.Nodup, List.pairwise_map, List.pairwise_iff_getElem]
  constructor
  · intro h index hindex other hother
    obtain ⟨i, hi, rfl⟩ := List.mem_take_iff_getElem.1 hother
    exact h i index (by omega) hindex (by omega)
  · intro h i j hi hj hij
    exact h j hj suites[i] (List.mem_take_iff_getElem.2 ⟨i, by omega, rfl⟩)

theorem summarizeSuites_eq_ok_iff {suites : List SuiteResultV1} {requiredSuites : List String}
    {summary : SuiteSummary} :
    summarizeSuites suites requiredSuites = .ok summary ↔
      SuitesWellFormed suites ∧ (∀ required ∈ requiredSuites, validSuiteId required = true) ∧
        suiteSummary suites requiredSuites = summary := by
  have hloop (u : PUnit) : suites.zipIdx.forM (validateSuite suites) = .ok u ↔
      (∀ suite ∈ suites, suite.WellFormed) ∧ (suites.map SuiteResultV1.suiteId).Nodup := by
    rw [Outcome.forM_eq_ok_iff, nodup_suiteId_iff]
    simp only [Prod.forall, List.mem_zipIdx_iff_getElem?, validateSuite_eq_ok_iff]
    constructor
    · intro h
      refine ⟨fun suite hsuite => ?_, fun i hi => (h _ i (List.getElem?_eq_getElem hi)).2⟩
      obtain ⟨i, hi, rfl⟩ := List.mem_iff_getElem.1 hsuite
      exact (h _ i (List.getElem?_eq_getElem hi)).1
    · rintro ⟨hsuite, hfresh⟩ suite i hget
      obtain ⟨hi, rfl⟩ := List.getElem?_eq_some_iff.1 hget
      exact ⟨hsuite _ (List.getElem_mem hi), hfresh i hi⟩
  have hrequired (u : PUnit) : (requiredSuites.forM fun required =>
      Outcome.require (validSuiteId required = true)
        (AdapterEvidenceError.invalidRequiredSuite required)) = .ok u ↔
      ∀ required ∈ requiredSuites, validSuiteId required = true := by
    rw [Outcome.forM_eq_ok_iff]
    simp only [Outcome.require_eq_ok_iff]
  simp only [summarizeSuites, Except.bind_eq_ok_iff, Outcome.require_eq_ok_iff, exists_const,
    hloop, hrequired, Except.pure_eq_ok_iff]
  constructor
  · rintro ⟨hne, hlen, ⟨hsuite, hnodup⟩, hids, hsummary⟩
    exact ⟨⟨hne, hlen, hsuite, hnodup⟩, hids, hsummary⟩
  · rintro ⟨h, hids, hsummary⟩
    exact ⟨h.ne_nil, h.length_le, ⟨h.suite, h.nodup⟩, hids, hsummary⟩

/-- The verdict of a record that is not refused. -/
def PortableAdapterEvidenceV1.verdict (record : PortableAdapterEvidenceV1)
    (requiredSuites : List String) : AdapterEvidenceVerdictV1 :=
  adapterVerdict (suiteSummary record.suites requiredSuites) record.source.worktreeClean
    record.adapter.class

/-- The validator returns exactly on well-formed records whose adapter class is consistent. -/
theorem validateAdapterEvidence_eq_ok_iff {record : PortableAdapterEvidenceV1}
    {requiredSuites : List String} {verdict : AdapterEvidenceVerdictV1} :
    validateAdapterEvidence record requiredSuites = .ok verdict ↔
      (record.WellFormed ∧ ¬ record.adapter.ClassConflict ∧
        ∀ required ∈ requiredSuites, validSuiteId required = true) ∧
          record.verdict requiredSuites = verdict := by
  simp only [validateAdapterEvidence, Except.bind_eq_ok_iff, Outcome.require_eq_ok_iff,
    exists_const, validateSource_eq_ok_iff, requiredText_eq_ok_iff, optionalText_eq_ok_iff,
    summarizeSuites_eq_ok_iff, Except.pure_eq_ok_iff]
  constructor
  · rintro ⟨hsource, hfamily, hapi, hname, htype, hdriver, hinfo, hclass, _, ⟨hsuites, hids, rfl⟩,
      hverdict⟩
    exact ⟨⟨⟨hsource, ⟨hfamily, hapi, hname, htype, hdriver, hinfo⟩, hsuites⟩, hclass, hids⟩,
      hverdict⟩
  · rintro ⟨⟨h, hclass, hids⟩, hverdict⟩
    have hadapter := h.adapter
    exact ⟨h.source, hadapter.backendFamily, hadapter.apiBackend, hadapter.name,
      hadapter.deviceType, hadapter.driver, hadapter.driverInfo, hclass, _,
      ⟨h.suites, hids, rfl⟩, hverdict⟩

/-- Identity of the host that ran the CPU reference. -/
structure CpuHostIdentityV1 where
  arch : String
  os : String
  endian : String
  pointerWidth : UInt32
  cpuModel : String
  deriving DecidableEq

/-- One CPU host evidence record. -/
structure PortableCpuHostEvidenceV1 where
  source : EvidenceSourceV1
  host : CpuHostIdentityV1
  suites : List SuiteResultV1
  deriving DecidableEq

/-- Verdict of a structurally valid CPU host record. -/
inductive CpuHostEvidenceVerdictV1
  | referenceOracleAgreementObserved
  | dirtyWorktree
  | incomplete (suiteIds : List String)
  | failed (suiteIds : List String)
  deriving DecidableEq

/-- The verdict on summarized suites, from the state of the worktree. -/
def cpuHostVerdict (summary : SuiteSummary) (worktreeClean : Bool) : CpuHostEvidenceVerdictV1 :=
  match summary with
  | .failed suiteIds => .failed suiteIds
  | .incomplete suiteIds => .incomplete suiteIds
  | .allRequiredPassed =>
    if !worktreeClean then .dirtyWorktree else .referenceOracleAgreementObserved

/-- Validate a record against the suites that must pass, returning its verdict. -/
def validateCpuHostEvidence (record : PortableCpuHostEvidenceV1) (requiredSuites : List String) :
    Outcome AdapterEvidenceError CpuHostEvidenceVerdictV1 := do
  validateSource record.source
  let host := record.host
  requiredText "arch" host.arch
  requiredText "os" host.os
  optionalText "cpu_model" host.cpuModel
  .require (host.endian = "little" ∨ host.endian = "big") (.invalidHostField "endian")
  .require (host.pointerWidth = 16 ∨ host.pointerWidth = 32 ∨ host.pointerWidth = 64)
    (.invalidHostField "pointer_width")
  .require (Str.contains record.source.target host.arch = true) .hostTargetMismatch
  let summary ← summarizeSuites record.suites requiredSuites
  pure (cpuHostVerdict summary record.source.worktreeClean)

/-- The identity of a host is canonical text with an endianness and a pointer width. -/
structure CpuHostIdentityV1.WellFormed (host : CpuHostIdentityV1) : Prop where
  arch : host.arch ≠ "" ∧ CanonicalText host.arch
  os : host.os ≠ "" ∧ CanonicalText host.os
  cpuModel : CanonicalText host.cpuModel
  endian : host.endian = "little" ∨ host.endian = "big"
  pointerWidth : host.pointerWidth = 16 ∨ host.pointerWidth = 32 ∨ host.pointerWidth = 64

/-- A well-formed record: the build target names the architecture of the host. -/
structure PortableCpuHostEvidenceV1.WellFormed (record : PortableCpuHostEvidenceV1) : Prop where
  source : record.source.WellFormed
  host : record.host.WellFormed
  target : Str.contains record.source.target record.host.arch = true
  suites : SuitesWellFormed record.suites

/-- The verdict of a record that is not refused. -/
def PortableCpuHostEvidenceV1.verdict (record : PortableCpuHostEvidenceV1)
    (requiredSuites : List String) : CpuHostEvidenceVerdictV1 :=
  cpuHostVerdict (suiteSummary record.suites requiredSuites) record.source.worktreeClean

/-- The validator returns exactly on well-formed records. -/
theorem validateCpuHostEvidence_eq_ok_iff {record : PortableCpuHostEvidenceV1}
    {requiredSuites : List String} {verdict : CpuHostEvidenceVerdictV1} :
    validateCpuHostEvidence record requiredSuites = .ok verdict ↔
      (record.WellFormed ∧ ∀ required ∈ requiredSuites, validSuiteId required = true) ∧
        record.verdict requiredSuites = verdict := by
  simp only [validateCpuHostEvidence, Except.bind_eq_ok_iff, Outcome.require_eq_ok_iff,
    exists_const, validateSource_eq_ok_iff, requiredText_eq_ok_iff, optionalText_eq_ok_iff,
    summarizeSuites_eq_ok_iff, Except.pure_eq_ok_iff]
  constructor
  · rintro ⟨hsource, harch, hos, hmodel, hendian, hwidth, htarget, _, ⟨hsuites, hids, rfl⟩,
      hverdict⟩
    exact ⟨⟨⟨hsource, ⟨harch, hos, hmodel, hendian, hwidth⟩, htarget, hsuites⟩, hids⟩, hverdict⟩
  · rintro ⟨⟨h, hids⟩, hverdict⟩
    have hhost := h.host
    exact ⟨h.source, hhost.arch, hhost.os, hhost.cpuModel, hhost.endian, hhost.pointerWidth,
      h.target, _, ⟨h.suites, hids, rfl⟩, hverdict⟩

end NNIS
