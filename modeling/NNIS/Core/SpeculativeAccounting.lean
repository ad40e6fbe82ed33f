import NNIS.Core.SpeculativeVerify
import NNIS.Semantics.Fallible
import NNIS.Semantics.Outcome
import NNIS.Semantics.Replies

/-!
# Acceptance counts over runs of verifications

The statistics of `nnis-core/src/speculative_verify.rs` add up the outcomes of verifications. A
record works on a copy of the counters and replaces them when every addition fits.

## Main definitions

* `SpeculativeAcceptanceStatsV1.recordInPlace` — the record on a mutable receiver.
* `SpeculativeVerificationV1.WellFormed` — how the counts of one outcome are related.
* `SpeculativeAcceptanceStatsV1.Balanced` — how the counters are related.
* `SpeculativeAcceptanceStatsV1.verifyAndRecord` — one step of a run.

## Main results

* `SpeculativeAcceptanceStatsV1.record_meets` — a record adds the outcome, or fails.
* `SpeculativeAcceptanceStatsV1.balanced_replies` — the counters after every run.
-/

set_option autoImplicit false

namespace NNIS

/-! ### One outcome -/

/-- The counts of an outcome of a verification. -/
structure SpeculativeVerificationV1.WellFormed (outcome : SpeculativeVerificationV1) : Prop where
  accepted_le : outcome.accepted ≤ outcome.scheduled
  scheduled_le : outcome.scheduled ≤ outcome.drafted
  length_emittedTokens : outcome.emittedTokens.length = outcome.accepted + 1

/-- A verification has a well-formed outcome. -/
theorem verifyScheduledDraft_wellFormed {draft : SpeculativeDraftV1}
    {schedule : ConfidenceScheduleV1} {targetTokens : List UInt32}
    {outcome : SpeculativeVerificationV1}
    (h : verifyScheduledDraft draft schedule targetTokens = .ok outcome) : outcome.WellFormed := by
  have hlength : targetTokens.length = schedule.scheduledLen draft + 1 := by
    by_contra hne
    rw [verifyScheduledDraft, if_pos hne] at h
    cases h
  rw [verifyScheduledDraft_eq draft schedule hlength] at h
  obtain rfl := Except.ok.inj h
  have haccepted := SpeculativeVerificationV1.accepted_ofTargets_le draft schedule targetTokens
  refine ⟨haccepted, schedule.scheduledLen_le draft, ?_⟩
  obtain ⟨token, -, hemitted⟩ := SpeculativeVerificationV1.exists_emittedTokens_eq hlength
  rw [hemitted, List.length_append, List.length_take, schedule.length_scheduled,
    Nat.min_eq_left haccepted, List.length_singleton]

namespace SpeculativeAcceptanceStatsV1

/-! ### One record -/

/-- No verification yet. -/
def empty : SpeculativeAcceptanceStatsV1 := ⟨0, 0, 0, 0, 0, 0, 0⟩

/-- Record an outcome on a mutable receiver. -/
def recordInPlace (outcome : SpeculativeVerificationV1) :
    Fallible SpeculativeAcceptanceStatsV1 SpeculativeError PUnit := do
  let stats ← .get
  let next ← .ofExcept (stats.record outcome)
  .modify fun _ => next

/-- The counters with an outcome added. -/
def plus (stats : SpeculativeAcceptanceStatsV1) (outcome : SpeculativeVerificationV1) :
    SpeculativeAcceptanceStatsV1 where
  steps := stats.steps + 1
  drafted := stats.drafted + outcome.drafted
  scheduled := stats.scheduled + outcome.scheduled
  accepted := stats.accepted + outcome.accepted
  emitted := stats.emitted + outcome.emittedTokens.length
  skippedBySchedule := stats.skippedBySchedule + outcome.skippedBySchedule
  stepsWithRejection :=
    if outcome.rejectedAt.isSome then stats.stepsWithRejection + 1 else stats.stepsWithRejection

/-- Every counter that the outcome is added to fits 64 bits afterwards. -/
structure FitsWith (stats : SpeculativeAcceptanceStatsV1) (outcome : SpeculativeVerificationV1) :
    Prop where
  steps : stats.steps + 1 < wordLimit
  drafted : stats.drafted + outcome.drafted < wordLimit
  scheduled : stats.scheduled + outcome.scheduled < wordLimit
  accepted : stats.accepted + outcome.accepted < wordLimit
  emitted : stats.emitted + outcome.emittedTokens.length < wordLimit
  skippedBySchedule : stats.skippedBySchedule + outcome.skippedBySchedule < wordLimit
  stepsWithRejection : outcome.rejectedAt.isSome = true → stats.stepsWithRejection + 1 < wordLimit

private theorem add_meets (left right : ℕ) {fits : Prop} (h : fits → left + right < wordLimit) :
    Except.Meets (add left right) (fun sum => sum = left + right ∧ left + right < wordLimit)
      fun e => e = .counterOverflow ∧ ¬ fits := by
  rw [add, checkedAdd]
  by_cases hfit : left + right < wordLimit
  · rw [if_pos hfit]
    exact ⟨rfl, hfit⟩
  · rw [if_neg hfit]
    exact ⟨rfl, fun hf => hfit (h hf)⟩

/-- A record adds the outcome exactly when every counter fits. -/
theorem record_meets (stats : SpeculativeAcceptanceStatsV1) (outcome : SpeculativeVerificationV1) :
    Except.Meets (stats.record outcome)
      (fun next => next = stats.plus outcome ∧ stats.FitsWith outcome)
      fun e => e = .counterOverflow ∧ ¬ stats.FitsWith outcome := by
  refine Except.Meets.bind (add_meets _ _ FitsWith.steps) ?_
  rintro _ ⟨rfl, hsteps⟩
  refine Except.Meets.bind (add_meets _ _ FitsWith.drafted) ?_
  rintro _ ⟨rfl, hdrafted⟩
  refine Except.Meets.bind (add_meets _ _ FitsWith.scheduled) ?_
  rintro _ ⟨rfl, hscheduled⟩
  refine Except.Meets.bind (add_meets _ _ FitsWith.accepted) ?_
  rintro _ ⟨rfl, haccepted⟩
  refine Except.Meets.bind (add_meets _ _ FitsWith.emitted) ?_
  rintro _ ⟨rfl, hemitted⟩
  refine Except.Meets.bind (add_meets _ _ FitsWith.skippedBySchedule) ?_
  rintro _ ⟨rfl, hskipped⟩
  by_cases hrejected : outcome.rejectedAt.isSome = true
  · rw [if_pos hrejected]
    refine Except.Meets.bind (add_meets _ _ fun h => FitsWith.stepsWithRejection h hrejected) ?_
    rintro _ ⟨rfl, hrejections⟩
    refine ⟨?_, hsteps, hdrafted, hscheduled, haccepted, hemitted, hskipped, fun _ => hrejections⟩
    rw [plus, if_pos hrejected]
  · rw [if_neg hrejected]
    refine ⟨?_, hsteps, hdrafted, hscheduled, haccepted, hemitted, hskipped,
      fun h => absurd h hrejected⟩
    rw [plus, if_neg hrejected]

/-- A record that fits adds the outcome. -/
theorem run_recordInPlace_of_fits {stats : SpeculativeAcceptanceStatsV1}
    {outcome : SpeculativeVerificationV1} (h : stats.FitsWith outcome) :
    (recordInPlace outcome).run stats = (.ok ⟨⟩, stats.plus outcome) := by
  have hmeets := stats.record_meets outcome
  rw [recordInPlace, Fallible.run_bind_ok (Fallible.run_get stats)]
  cases hrecord : stats.record outcome with
  | ok next =>
    obtain ⟨rfl, -⟩ := hmeets.of_ok hrecord
    rfl
  | error e => exact absurd h (hmeets.of_error hrecord).2

/-- A record that does not fit fails, and all counters stay as they are. -/
theorem run_recordInPlace_of_not_fits {stats : SpeculativeAcceptanceStatsV1}
    {outcome : SpeculativeVerificationV1} (h : ¬ stats.FitsWith outcome) :
    (recordInPlace outcome).run stats = (.error .counterOverflow, stats) := by
  have hmeets := stats.record_meets outcome
  rw [recordInPlace, Fallible.run_bind_ok (Fallible.run_get stats)]
  cases hrecord : stats.record outcome with
  | ok next => exact absurd (hmeets.of_ok hrecord).2 h
  | error e =>
    obtain ⟨rfl, -⟩ := hmeets.of_error hrecord
    rfl

/-! ### Runs -/

/-- How the counters are related. -/
structure Balanced (stats : SpeculativeAcceptanceStatsV1) : Prop where
  accepted_le : stats.accepted ≤ stats.scheduled
  scheduled_le : stats.scheduled ≤ stats.drafted
  drafted_eq : stats.drafted = stats.scheduled + stats.skippedBySchedule
  emitted_eq : stats.emitted = stats.accepted + stats.steps
  stepsWithRejection_le : stats.stepsWithRejection ≤ stats.steps

theorem balanced_empty : empty.Balanced := ⟨le_rfl, le_rfl, rfl, rfl, le_rfl⟩

/-- Balanced counters stay balanced with a well-formed outcome. -/
theorem Balanced.plus {stats : SpeculativeAcceptanceStatsV1} {outcome : SpeculativeVerificationV1}
    (h : stats.Balanced) (ho : outcome.WellFormed) : (stats.plus outcome).Balanced where
  accepted_le := Nat.add_le_add h.accepted_le ho.accepted_le
  scheduled_le := Nat.add_le_add h.scheduled_le ho.scheduled_le
  drafted_eq := by
    have hscheduled := ho.scheduled_le
    have hdrafted := h.drafted_eq
    rw [SpeculativeAcceptanceStatsV1.plus, SpeculativeVerificationV1.skippedBySchedule]
    dsimp only
    omega
  emitted_eq := by
    have hemitted := h.emitted_eq
    rw [SpeculativeAcceptanceStatsV1.plus, ho.length_emittedTokens]
    dsimp only
    omega
  stepsWithRejection_le := by
    have hrejections := h.stepsWithRejection_le
    rw [SpeculativeAcceptanceStatsV1.plus]
    split_ifs
    · exact Nat.succ_le_succ hrejections
    · exact Nat.le_succ_of_le hrejections

/-- What one step of a run verifies. -/
structure Verification where
  draft : SpeculativeDraftV1
  schedule : ConfidenceScheduleV1
  targetTokens : List UInt32

/-- Verify a draft and record the outcome; a failed verification records nothing. -/
def verifyAndRecord (v : Verification) (stats : SpeculativeAcceptanceStatsV1) :
    Except SpeculativeError PUnit × SpeculativeAcceptanceStatsV1 :=
  match verifyScheduledDraft v.draft v.schedule v.targetTokens with
  | .ok outcome => (recordInPlace outcome).run stats
  | .error e => (.error e, stats)

/-- Balanced counters stay balanced over one step. -/
theorem Balanced.verifyAndRecord {stats : SpeculativeAcceptanceStatsV1} (h : stats.Balanced)
    (v : Verification) : (verifyAndRecord v stats).2.Balanced := by
  rw [SpeculativeAcceptanceStatsV1.verifyAndRecord]
  cases hverify : verifyScheduledDraft v.draft v.schedule v.targetTokens with
  | error e => exact h
  | ok outcome =>
    dsimp only
    by_cases hfits : stats.FitsWith outcome
    · rw [run_recordInPlace_of_fits hfits]
      exact h.plus (verifyScheduledDraft_wellFormed hverify)
    · rw [run_recordInPlace_of_not_fits hfits]
      exact h

/-- After every run of verifications the counters are balanced, the next outcome is added when
every counter fits, and otherwise its record fails and leaves all counters as they are. -/
theorem balanced_replies (run : List Verification) :
    (replies verifyAndRecord run empty).2.Balanced ∧
    ∀ (v : Verification) outcome,
      verifyScheduledDraft v.draft v.schedule v.targetTokens = .ok outcome →
      ((replies verifyAndRecord run empty).2.FitsWith outcome →
        (recordInPlace outcome).run (replies verifyAndRecord run empty).2 =
          (.ok ⟨⟩, (replies verifyAndRecord run empty).2.plus outcome)) ∧
      (¬ (replies verifyAndRecord run empty).2.FitsWith outcome →
        (recordInPlace outcome).run (replies verifyAndRecord run empty).2 =
          (.error .counterOverflow, (replies verifyAndRecord run empty).2)) := by
  refine ⟨replies_invariant (fun v _ h => h.verifyAndRecord v) run balanced_empty,
    fun v outcome _ => ⟨fun h => run_recordInPlace_of_fits h, fun h => ?_⟩⟩
  exact run_recordInPlace_of_not_fits h

end SpeculativeAcceptanceStatsV1

end NNIS
