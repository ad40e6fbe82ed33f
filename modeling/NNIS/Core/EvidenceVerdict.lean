import NNIS.Core.AdapterEvidence

/-!
# When the suites of an evidence record agree

The best verdict of either validator says exactly that the record is well formed and clean, that no
suite failed and that every required suite ran and passed; for an adapter also that it is hardware.
The verdict reads the suites as a set of named results: listing them in another order neither
refuses an accepted record nor changes the kind of its verdict.

## Main definitions

* `RequiredSuitesPassed` — no suite failed and every required suite passed.
* `AdapterEvidenceVerdictV1.kind`, `CpuHostEvidenceVerdictV1.kind` — a verdict without the names it
  lists.

## Main results

* `validateAdapterEvidence_eq_hardwareParityObserved_iff`,
  `validateCpuHostEvidence_eq_referenceOracleAgreementObserved_iff` — the best verdicts.
* `validateAdapterEvidence_kind_perm`, `validateCpuHostEvidence_kind_perm` — the order of the
  suites.
* `evidenceVerdicts_correct` — both facts for both validators.
-/

set_option autoImplicit false

namespace NNIS

/-! ### The summary of the suites -/

/-- No suite failed, and every required suite passed with checks and without mismatches. -/
structure RequiredSuitesPassed (suites : List SuiteResultV1) (requiredSuites : List String) :
    Prop where
  not_fail : ∀ suite ∈ suites, suite.outcome ≠ .fail
  pass : ∀ required ∈ requiredSuites, ∃ suite ∈ suites, suite.suiteId = required ∧
    suite.outcome = .pass ∧ 0 < suite.checks ∧ suite.mismatches = 0

theorem failedSuites_eq_nil_iff {suites : List SuiteResultV1} :
    failedSuites suites = [] ↔ ∀ suite ∈ suites, suite.outcome ≠ .fail := by
  simp only [failedSuites, List.map_eq_nil_iff, List.filter_eq_nil_iff, decide_eq_true_eq, ne_eq]

theorem incompleteSuites_eq_nil_iff {suites : List SuiteResultV1} {requiredSuites : List String} :
    incompleteSuites suites requiredSuites = [] ↔
      ∀ required ∈ requiredSuites, ∃ suite ∈ suites, suite.suiteId = required ∧
        suite.outcome = .pass := by
  simp only [incompleteSuites, List.filter_eq_nil_iff, Bool.not_eq_true', Bool.not_eq_false,
    List.any_eq_true, Bool.and_eq_true, beq_iff_eq]

theorem suiteSummary_eq_allRequiredPassed_iff {suites : List SuiteResultV1}
    {requiredSuites : List String} :
    suiteSummary suites requiredSuites = .allRequiredPassed ↔
      failedSuites suites = [] ∧ incompleteSuites suites requiredSuites = [] := by
  unfold suiteSummary
  by_cases hfailed : failedSuites suites = []
  · by_cases hincomplete : incompleteSuites suites requiredSuites = []
    · simp only [hfailed, hincomplete, ne_eq, not_true_eq_false, if_false, and_self]
    · simp only [hfailed, hincomplete, ne_eq, not_true_eq_false, not_false_eq_true, if_false,
        if_true, reduceCtorEq, and_false]
  · simp only [hfailed, ne_eq, not_false_eq_true, if_true, reduceCtorEq, false_and]

/-- In a well-formed record the suites that are said to have passed did compare something. -/
theorem SuitesWellFormed.suiteSummary_eq_allRequiredPassed_iff {suites : List SuiteResultV1}
    (h : SuitesWellFormed suites) {requiredSuites : List String} :
    suiteSummary suites requiredSuites = .allRequiredPassed ↔
      RequiredSuitesPassed suites requiredSuites := by
  rw [NNIS.suiteSummary_eq_allRequiredPassed_iff, failedSuites_eq_nil_iff,
    incompleteSuites_eq_nil_iff]
  constructor
  · rintro ⟨hfail, hpass⟩
    refine ⟨hfail, fun required hrequired => ?_⟩
    obtain ⟨suite, hsuite, hid, hpassed⟩ := hpass required hrequired
    have hcounts := (h.suite suite hsuite).pass hpassed
    exact ⟨suite, hsuite, hid, hpassed, UInt64.pos_iff_ne_zero.2 hcounts.2, hcounts.1⟩
  · rintro ⟨hfail, hpass⟩
    refine ⟨hfail, fun required hrequired => ?_⟩
    obtain ⟨suite, hsuite, hid, hpassed, -⟩ := hpass required hrequired
    exact ⟨suite, hsuite, hid, hpassed⟩

/-- The names of required suites that passed are names of suites. -/
theorem RequiredSuitesPassed.validSuiteId {suites : List SuiteResultV1}
    {requiredSuites : List String} (h : RequiredSuitesPassed suites requiredSuites)
    (hsuites : SuitesWellFormed suites) :
    ∀ required ∈ requiredSuites, validSuiteId required = true := by
  intro required hrequired
  obtain ⟨suite, hsuite, rfl, -⟩ := h.pass required hrequired
  exact (hsuites.suite suite hsuite).suiteId

/-! ### The best verdicts -/

theorem adapterVerdict_eq_hardwareParityObserved_iff {summary : SuiteSummary}
    {worktreeClean : Bool} {adapterClass : AdapterClassV1} :
    adapterVerdict summary worktreeClean adapterClass = .hardwareParityObserved ↔
      summary = .allRequiredPassed ∧ worktreeClean = true ∧ adapterClass = .hardware := by
  cases summary with
  | failed suiteIds => exact ⟨nofun, nofun⟩
  | incomplete suiteIds => exact ⟨nofun, nofun⟩
  | allRequiredPassed =>
    cases worktreeClean with
    | false => exact ⟨nofun, nofun⟩
    | true => cases adapterClass <;> exact ⟨by simp [adapterVerdict], by simp [adapterVerdict]⟩

theorem cpuHostVerdict_eq_referenceOracleAgreementObserved_iff {summary : SuiteSummary}
    {worktreeClean : Bool} :
    cpuHostVerdict summary worktreeClean = .referenceOracleAgreementObserved ↔
      summary = .allRequiredPassed ∧ worktreeClean = true := by
  cases summary with
  | failed suiteIds => exact ⟨nofun, nofun⟩
  | incomplete suiteIds => exact ⟨nofun, nofun⟩
  | allRequiredPassed => cases worktreeClean <;> simp [cpuHostVerdict]

/-- The adapter validator observes hardware parity exactly on well-formed clean records of a
hardware adapter whose suites all agree. -/
theorem validateAdapterEvidence_eq_hardwareParityObserved_iff (record : PortableAdapterEvidenceV1)
    (requiredSuites : List String) :
    validateAdapterEvidence record requiredSuites = .ok .hardwareParityObserved ↔
      record.WellFormed ∧ record.source.worktreeClean = true ∧
        RequiredSuitesPassed record.suites requiredSuites ∧ record.adapter.class = .hardware ∧
          Str.eqIgnoreAsciiCase record.adapter.deviceType "cpu" = false ∧
            isKnownSoftwareAdapter record.adapter.name record.adapter.driver = false := by
  rw [validateAdapterEvidence_eq_ok_iff, PortableAdapterEvidenceV1.verdict,
    adapterVerdict_eq_hardwareParityObserved_iff]
  simp only [AdapterIdentityV1.ClassConflict, not_and, not_or, Bool.not_eq_true]
  constructor
  · rintro ⟨⟨h, hconflict, -⟩, hsummary, hclean, hclass⟩
    exact ⟨h, hclean, h.suites.suiteSummary_eq_allRequiredPassed_iff.1 hsummary, hclass,
      hconflict hclass⟩
  · rintro ⟨h, hclean, hpassed, hclass, hconflict⟩
    exact ⟨⟨h, fun _ => hconflict, hpassed.validSuiteId h.suites⟩,
      h.suites.suiteSummary_eq_allRequiredPassed_iff.2 hpassed, hclean, hclass⟩

/-- The host validator observes agreement with the oracle exactly on well-formed clean records
whose suites all agree. -/
theorem validateCpuHostEvidence_eq_referenceOracleAgreementObserved_iff
    (record : PortableCpuHostEvidenceV1) (requiredSuites : List String) :
    validateCpuHostEvidence record requiredSuites = .ok .referenceOracleAgreementObserved ↔
      record.WellFormed ∧ record.source.worktreeClean = true ∧
        RequiredSuitesPassed record.suites requiredSuites := by
  rw [validateCpuHostEvidence_eq_ok_iff, PortableCpuHostEvidenceV1.verdict,
    cpuHostVerdict_eq_referenceOracleAgreementObserved_iff]
  constructor
  · rintro ⟨⟨h, -⟩, hsummary, hclean⟩
    exact ⟨h, hclean, h.suites.suiteSummary_eq_allRequiredPassed_iff.1 hsummary⟩
  · rintro ⟨h, hclean, hpassed⟩
    exact ⟨⟨h, hpassed.validSuiteId h.suites⟩,
      h.suites.suiteSummary_eq_allRequiredPassed_iff.2 hpassed, hclean⟩

/-! ### The order of the suites -/

/-- A summary without the names it lists. -/
def SuiteSummary.kind : SuiteSummary → SuiteSummary
  | failed _ => failed []
  | incomplete _ => incomplete []
  | allRequiredPassed => allRequiredPassed

/-- A verdict without the names it lists. -/
def AdapterEvidenceVerdictV1.kind : AdapterEvidenceVerdictV1 → AdapterEvidenceVerdictV1
  | failed _ => failed []
  | incomplete _ => incomplete []
  | verdict => verdict

/-- A verdict without the names it lists. -/
def CpuHostEvidenceVerdictV1.kind : CpuHostEvidenceVerdictV1 → CpuHostEvidenceVerdictV1
  | failed _ => failed []
  | incomplete _ => incomplete []
  | verdict => verdict

theorem kind_adapterVerdict (summary : SuiteSummary) (worktreeClean : Bool)
    (adapterClass : AdapterClassV1) :
    (adapterVerdict summary worktreeClean adapterClass).kind =
      adapterVerdict summary.kind worktreeClean adapterClass := by
  cases summary with
  | failed suiteIds => rfl
  | incomplete suiteIds => rfl
  | allRequiredPassed => cases worktreeClean <;> cases adapterClass <;> rfl

theorem kind_cpuHostVerdict (summary : SuiteSummary) (worktreeClean : Bool) :
    (cpuHostVerdict summary worktreeClean).kind = cpuHostVerdict summary.kind worktreeClean := by
  cases summary with
  | failed suiteIds => rfl
  | incomplete suiteIds => rfl
  | allRequiredPassed => cases worktreeClean <;> rfl

section Permutation

variable {suites suites' : List SuiteResultV1}

theorem failedSuites_perm (h : suites'.Perm suites) :
    (failedSuites suites').Perm (failedSuites suites) :=
  (h.filter _).map _

theorem incompleteSuites_perm (h : suites'.Perm suites) (requiredSuites : List String) :
    incompleteSuites suites' requiredSuites = incompleteSuites suites requiredSuites := by
  unfold incompleteSuites
  congr 1
  funext required
  rw [h.any_eq]

theorem kind_suiteSummary_perm (h : suites'.Perm suites) (requiredSuites : List String) :
    (suiteSummary suites' requiredSuites).kind = (suiteSummary suites requiredSuites).kind := by
  have hnil : failedSuites suites' = [] ↔ failedSuites suites = [] := by
    rw [← List.length_eq_zero_iff, (failedSuites_perm h).length_eq, List.length_eq_zero_iff]
  unfold suiteSummary
  rw [incompleteSuites_perm h]
  by_cases hfailed : failedSuites suites = []
  · rw [if_neg (not_not.2 (hnil.2 hfailed)), if_neg (not_not.2 hfailed)]
  · rw [if_pos fun h' => hfailed (hnil.1 h'), if_pos hfailed]
    rfl

private theorem SuitesWellFormed.of_perm (h : suites'.Perm suites)
    (hsuites : SuitesWellFormed suites) : SuitesWellFormed suites' where
  ne_nil hnil := hsuites.ne_nil (List.nil_perm.1 (hnil ▸ h))
  length_le := h.length_eq ▸ hsuites.length_le
  suite suite hsuite := hsuites.suite suite (h.mem_iff.1 hsuite)
  nodup := (h.map _).nodup_iff.2 hsuites.nodup

theorem suitesWellFormed_perm (h : suites'.Perm suites) :
    SuitesWellFormed suites' ↔ SuitesWellFormed suites :=
  ⟨.of_perm h.symm, .of_perm h⟩

/-- Listing the suites of an adapter record in another order does not change whether there is a
verdict, nor its kind. -/
theorem validateAdapterEvidence_kind_perm (record : PortableAdapterEvidenceV1)
    (h : suites.Perm record.suites) (requiredSuites : List String) :
    (validateAdapterEvidence { record with suites } requiredSuites).toOption.map
        AdapterEvidenceVerdictV1.kind =
      (validateAdapterEvidence record requiredSuites).toOption.map
        AdapterEvidenceVerdictV1.kind := by
  classical
  have hwell : PortableAdapterEvidenceV1.WellFormed { record with suites } ↔ record.WellFormed :=
    ⟨fun h' => ⟨h'.source, h'.adapter, (suitesWellFormed_perm h).1 h'.suites⟩,
      fun h' => ⟨h'.source, h'.adapter, (suitesWellFormed_perm h).2 h'.suites⟩⟩
  have hkind : (PortableAdapterEvidenceV1.verdict { record with suites } requiredSuites).kind =
      (record.verdict requiredSuites).kind := by
    simp only [PortableAdapterEvidenceV1.verdict, kind_adapterVerdict, kind_suiteSummary_perm h]
  simp only [Except.toOption_eq_ite fun _ => validateAdapterEvidence_eq_ok_iff, hwell,
    apply_ite (Option.map AdapterEvidenceVerdictV1.kind), Option.map_some, hkind]

/-- Listing the suites of a host record in another order does not change whether there is a
verdict, nor its kind. -/
theorem validateCpuHostEvidence_kind_perm (record : PortableCpuHostEvidenceV1)
    (h : suites.Perm record.suites) (requiredSuites : List String) :
    (validateCpuHostEvidence { record with suites } requiredSuites).toOption.map
        CpuHostEvidenceVerdictV1.kind =
      (validateCpuHostEvidence record requiredSuites).toOption.map
        CpuHostEvidenceVerdictV1.kind := by
  classical
  have hwell : PortableCpuHostEvidenceV1.WellFormed { record with suites } ↔ record.WellFormed :=
    ⟨fun h' => ⟨h'.source, h'.host, h'.target, (suitesWellFormed_perm h).1 h'.suites⟩,
      fun h' => ⟨h'.source, h'.host, h'.target, (suitesWellFormed_perm h).2 h'.suites⟩⟩
  have hkind : (PortableCpuHostEvidenceV1.verdict { record with suites } requiredSuites).kind =
      (record.verdict requiredSuites).kind := by
    simp only [PortableCpuHostEvidenceV1.verdict, kind_cpuHostVerdict, kind_suiteSummary_perm h]
  simp only [Except.toOption_eq_ite fun _ => validateCpuHostEvidence_eq_ok_iff, hwell,
    apply_ite (Option.map CpuHostEvidenceVerdictV1.kind), Option.map_some, hkind]

end Permutation

/-- The best verdict of either validator is characterised by the record, and the order of the
suites matters to neither. -/
theorem evidenceVerdicts_correct :
    (∀ (record : PortableAdapterEvidenceV1) (requiredSuites : List String),
      validateAdapterEvidence record requiredSuites = .ok .hardwareParityObserved ↔
        record.WellFormed ∧ record.source.worktreeClean = true ∧
          RequiredSuitesPassed record.suites requiredSuites ∧ record.adapter.class = .hardware ∧
            Str.eqIgnoreAsciiCase record.adapter.deviceType "cpu" = false ∧
              isKnownSoftwareAdapter record.adapter.name record.adapter.driver = false) ∧
    (∀ (record : PortableCpuHostEvidenceV1) (requiredSuites : List String),
      validateCpuHostEvidence record requiredSuites = .ok .referenceOracleAgreementObserved ↔
        record.WellFormed ∧ record.source.worktreeClean = true ∧
          RequiredSuitesPassed record.suites requiredSuites) ∧
    (∀ (record : PortableAdapterEvidenceV1) (suites : List SuiteResultV1)
      (requiredSuites : List String), suites.Perm record.suites →
        (validateAdapterEvidence { record with suites } requiredSuites).toOption.map
            AdapterEvidenceVerdictV1.kind =
          (validateAdapterEvidence record requiredSuites).toOption.map
            AdapterEvidenceVerdictV1.kind) ∧
    (∀ (record : PortableCpuHostEvidenceV1) (suites : List SuiteResultV1)
      (requiredSuites : List String), suites.Perm record.suites →
        (validateCpuHostEvidence { record with suites } requiredSuites).toOption.map
            CpuHostEvidenceVerdictV1.kind =
          (validateCpuHostEvidence record requiredSuites).toOption.map
            CpuHostEvidenceVerdictV1.kind) :=
  ⟨validateAdapterEvidence_eq_hardwareParityObserved_iff,
    validateCpuHostEvidence_eq_referenceOracleAgreementObserved_iff,
    fun record _ requiredSuites h => validateAdapterEvidence_kind_perm record h requiredSuites,
    fun record _ requiredSuites h => validateCpuHostEvidence_kind_perm record h requiredSuites⟩

end NNIS
