import NNIS.Decoding.Greedy
import NNIS.Numeric.Binary
import NNIS.Semantics.Checked

/-!
# Confidence-scheduled speculative verification

The contract of `nnis-core/src/speculative_verify.rs`: a caller's draft carries one confidence per
token, a caller's schedule sends the leading confident tokens to verification, and the longest
part of them that agrees with the target's tokens is accepted, followed by one token of the
target. Validated values carry what their constructors check. The identity of a schedule's policy
is not read by verification and is left out.

## Main definitions

* `SpeculativeDraftV1`, `ConfidenceScheduleV1`, `ConfidenceScheduleV1.scheduledLen`.
* `verifyScheduledDraft`, `SpeculativeVerificationV1`.
* `SpeculativeAcceptanceStatsV1`, `SpeculativeAcceptanceStatsV1.record`.

## Main results

* `verifyScheduledDraft_eq` — on the required number of target tokens the scheduled part of the
  draft is speculated against them.
-/

set_option autoImplicit false

namespace NNIS

/-- Maximum draft tokens accepted in one verification step. -/
def maxSpeculativeDraftTokens : ℕ := 1024

/-- Fail-closed speculative-verification errors. -/
inductive SpeculativeError
  | emptyDraft
  | draftTooLong (tokens : ℕ)
  | confidenceCountMismatch (tokens confidences : ℕ)
  | invalidConfidence (index : ℕ)
  | targetLengthMismatch (expected actual : ℕ)
  | counterOverflow
  deriving DecidableEq

/-- The text of an error. -/
def SpeculativeError.text : SpeculativeError → String
  | emptyDraft => "speculative draft must not be empty"
  | draftTooLong tokens =>
    s!"speculative draft has {tokens} tokens, maximum is {maxSpeculativeDraftTokens}"
  | confidenceCountMismatch tokens confidences =>
    s!"speculative draft has {tokens} tokens but {confidences} confidences"
  | invalidConfidence index => s!"draft confidence {index} is not a finite value in 0..=1"
  | targetLengthMismatch expected actual =>
    s!"verification needs {expected} target tokens, got {actual}"
  | counterOverflow => "speculative acceptance counter overflow"

/-- The range `0.0..=1.0` contains the value. -/
def inUnitRange (x : F32) : Bool :=
  (Binary.zero false : F32).le x && x.le (Binary.ofBits 0x3F800000)

/-- Caller-supplied speculative draft for one verification step. -/
structure SpeculativeDraftV1 where
  tokens : List UInt32
  confidences : List F32
  tokens_ne_nil : tokens ≠ []
  length_tokens_le : tokens.length ≤ maxSpeculativeDraftTokens
  length_confidences : confidences.length = tokens.length
  confidences_inUnitRange : confidences.all inUnitRange = true

namespace SpeculativeDraftV1

/-- Validate a non-empty draft with one finite confidence in `0..=1` per token. -/
def new (tokens : List UInt32) (confidences : List F32) :
    Except SpeculativeError SpeculativeDraftV1 :=
  if h₀ : tokens = [] then .error .emptyDraft
  else if h₁ : maxSpeculativeDraftTokens < tokens.length then .error (.draftTooLong tokens.length)
  else if h₂ : confidences.length ≠ tokens.length then
    .error (.confidenceCountMismatch tokens.length confidences.length)
  else if h₃ : confidences.all inUnitRange = true then
    .ok ⟨tokens, confidences, h₀, Nat.le_of_not_lt h₁, Decidable.of_not_not h₂, h₃⟩
  else .error (.invalidConfidence (confidences.findIdx fun c => !inUnitRange c))

/-- Number of draft tokens. -/
def len (draft : SpeculativeDraftV1) : ℕ := draft.tokens.length

end SpeculativeDraftV1

/-- Caller-supplied confidence schedule. -/
structure ConfidenceScheduleV1 where
  minConfidence : F32
  maxVerifyTokens : ℕ
  minConfidence_inUnitRange : inUnitRange minConfidence = true
  maxVerifyTokens_pos : 0 < maxVerifyTokens
  maxVerifyTokens_lt : maxVerifyTokens < 2 ^ 32

theorem inUnitRange_zero : inUnitRange (.zero false) = true := by decide

namespace ConfidenceScheduleV1

/-- Number of leading draft tokens this schedule sends to verification. -/
def scheduledLen (schedule : ConfidenceScheduleV1) (draft : SpeculativeDraftV1) : ℕ :=
  let leading :=
    (draft.confidences.takeWhile fun confidence => schedule.minConfidence.le confidence).length
  min leading schedule.maxVerifyTokens

theorem scheduledLen_le (schedule : ConfidenceScheduleV1) (draft : SpeculativeDraftV1) :
    schedule.scheduledLen draft ≤ draft.tokens.length := by
  refine (Nat.min_le_left _ _).trans ?_
  rw [← draft.length_confidences]
  exact (List.takeWhile_sublist _).length_le

theorem scheduledLen_le_max (schedule : ConfidenceScheduleV1) (draft : SpeculativeDraftV1) :
    schedule.scheduledLen draft ≤ maxSpeculativeDraftTokens :=
  (schedule.scheduledLen_le draft).trans draft.length_tokens_le

/-- The part of a draft that the schedule sends to verification. -/
def scheduled (schedule : ConfidenceScheduleV1) (draft : SpeculativeDraftV1) : List UInt32 :=
  draft.tokens.take (schedule.scheduledLen draft)

@[simp] theorem length_scheduled (schedule : ConfidenceScheduleV1) (draft : SpeculativeDraftV1) :
    (schedule.scheduled draft).length = schedule.scheduledLen draft := by
  rw [scheduled, List.length_take, Nat.min_eq_left (schedule.scheduledLen_le draft)]

theorem take_scheduled (schedule : ConfidenceScheduleV1) (draft : SpeculativeDraftV1) {n : ℕ}
    (h : n ≤ schedule.scheduledLen draft) :
    (schedule.scheduled draft).take n = draft.tokens.take n := by
  rw [scheduled, List.take_take, Nat.min_eq_left h]

end ConfidenceScheduleV1

/-- Outcome of one speculative verification step. -/
structure SpeculativeVerificationV1 where
  drafted : ℕ
  scheduled : ℕ
  accepted : ℕ
  rejectedAt : Option ℕ
  emittedTokens : List UInt32
  deriving DecidableEq

/-- Draft tokens never verified because of the schedule. -/
def SpeculativeVerificationV1.skippedBySchedule (outcome : SpeculativeVerificationV1) : ℕ :=
  outcome.drafted - outcome.scheduled

/-- Verify a scheduled draft against the target model's tokens: accept the longest matching prefix
and emit it together with the target's token there. -/
def verifyScheduledDraft (draft : SpeculativeDraftV1) (schedule : ConfidenceScheduleV1)
    (targetTokens : List UInt32) : Except SpeculativeError SpeculativeVerificationV1 :=
  let scheduled := schedule.scheduledLen draft
  let expected := scheduled + 1
  if targetTokens.length ≠ expected then
    .error (.targetLengthMismatch expected targetTokens.length)
  else
    let accepted :=
      (((draft.tokens.take scheduled).zip targetTokens).takeWhile fun p => p.1 = p.2).length
    .ok {
      drafted := draft.len
      scheduled := scheduled
      accepted := accepted
      rejectedAt := if accepted < scheduled then some accepted else none
      -- `accepted ≤ scheduled`, so the target token exists.
      emittedTokens := draft.tokens.take accepted ++ targetTokens[accepted]?.toList }

/-- The outcome of a draft against given target tokens: the agreement of its scheduled part with
them, and the speculated tokens. -/
def SpeculativeVerificationV1.ofTargets (draft : SpeculativeDraftV1)
    (schedule : ConfidenceScheduleV1) (targetTokens : List UInt32) : SpeculativeVerificationV1 where
  drafted := draft.len
  scheduled := schedule.scheduledLen draft
  accepted := agreement (schedule.scheduled draft) targetTokens
  rejectedAt :=
    if agreement (schedule.scheduled draft) targetTokens < schedule.scheduledLen draft then
      some (agreement (schedule.scheduled draft) targetTokens)
    else none
  emittedTokens := speculated (schedule.scheduled draft) targetTokens

theorem SpeculativeVerificationV1.accepted_ofTargets_le (draft : SpeculativeDraftV1)
    (schedule : ConfidenceScheduleV1) (targetTokens : List UInt32) :
    (ofTargets draft schedule targetTokens).accepted ≤ schedule.scheduledLen draft := by
  rw [← schedule.length_scheduled draft]
  exact agreement_le _ _

/-- The emitted tokens are the accepted ones and one target token. -/
theorem SpeculativeVerificationV1.exists_emittedTokens_eq {draft : SpeculativeDraftV1}
    {schedule : ConfidenceScheduleV1} {targetTokens : List UInt32}
    (h : targetTokens.length = schedule.scheduledLen draft + 1) :
    ∃ token ∈ targetTokens, (ofTargets draft schedule targetTokens).emittedTokens =
      (schedule.scheduled draft).take (ofTargets draft schedule targetTokens).accepted ++
        [token] := by
  have hlt : agreement (schedule.scheduled draft) targetTokens < targetTokens.length := by
    have := accepted_ofTargets_le draft schedule targetTokens
    change agreement (schedule.scheduled draft) targetTokens ≤ _ at this
    omega
  refine ⟨_, List.getElem_mem hlt, ?_⟩
  show speculated _ _ = _
  rw [speculated, List.getElem?_eq_getElem hlt, Option.toList_some]
  rfl

/-- On the required number of target tokens the emitted tokens are the speculated ones. -/
theorem verifyScheduledDraft_eq (draft : SpeculativeDraftV1) (schedule : ConfidenceScheduleV1)
    {targetTokens : List UInt32} (h : targetTokens.length = schedule.scheduledLen draft + 1) :
    verifyScheduledDraft draft schedule targetTokens =
      .ok (.ofTargets draft schedule targetTokens) := by
  have hle : agreement (schedule.scheduled draft) targetTokens ≤ schedule.scheduledLen draft := by
    rw [← schedule.length_scheduled draft]
    exact agreement_le _ _
  simp only [verifyScheduledDraft, h, ne_eq, not_true_eq_false, ↓reduceIte,
    SpeculativeVerificationV1.ofTargets, speculated, schedule.take_scheduled draft hle]
  rfl

/-- Cumulative acceptance counts over verification steps. -/
@[ext]
structure SpeculativeAcceptanceStatsV1 where
  steps : ℕ
  drafted : ℕ
  scheduled : ℕ
  accepted : ℕ
  emitted : ℕ
  skippedBySchedule : ℕ
  stepsWithRejection : ℕ
  deriving DecidableEq

namespace SpeculativeAcceptanceStatsV1

/-- Counter addition. -/
def add (left right : ℕ) : Except SpeculativeError ℕ :=
  match checkedAdd left right with
  | some sum => .ok sum
  | none => .error .counterOverflow

/-- Add one verification outcome with checked arithmetic. -/
def record (stats : SpeculativeAcceptanceStatsV1) (outcome : SpeculativeVerificationV1) :
    Except SpeculativeError SpeculativeAcceptanceStatsV1 := do
  let steps ← add stats.steps 1
  let drafted ← add stats.drafted outcome.drafted
  let scheduled ← add stats.scheduled outcome.scheduled
  let accepted ← add stats.accepted outcome.accepted
  let emitted ← add stats.emitted outcome.emittedTokens.length
  let skippedBySchedule ← add stats.skippedBySchedule outcome.skippedBySchedule
  let stepsWithRejection ←
    if outcome.rejectedAt.isSome then add stats.stepsWithRejection 1
    else pure stats.stepsWithRejection
  return {
    steps, drafted, scheduled, accepted, emitted, skippedBySchedule, stepsWithRejection }

/-- No counter overflows when one more outcome is recorded. -/
structure HasRoom (stats : SpeculativeAcceptanceStatsV1) : Prop where
  steps_lt : stats.steps + 1 < wordLimit
  drafted_lt : stats.drafted + maxSpeculativeDraftTokens < wordLimit
  scheduled_lt : stats.scheduled + maxSpeculativeDraftTokens < wordLimit
  accepted_lt : stats.accepted + maxSpeculativeDraftTokens < wordLimit
  emitted_lt : stats.emitted + maxSpeculativeDraftTokens + 1 < wordLimit
  skippedBySchedule_lt : stats.skippedBySchedule + maxSpeculativeDraftTokens < wordLimit
  stepsWithRejection_lt : stats.stepsWithRejection + 1 < wordLimit

private theorem add_bind {left right bound : ℕ} {α : Type} {f : ℕ → Except SpeculativeError α}
    (hright : right ≤ bound) (h : left + bound < wordLimit)
    (hf : ∃ next, f (left + right) = .ok next) : ∃ next, (add left right >>= f) = .ok next := by
  rw [add, checkedAdd_of_lt (lt_of_le_of_lt (Nat.add_le_add_left hright left) h)]
  exact hf

/-- Counters with room record the outcome of a draft. -/
theorem HasRoom.record {stats : SpeculativeAcceptanceStatsV1} (h : stats.HasRoom)
    (draft : SpeculativeDraftV1) (schedule : ConfidenceScheduleV1) (targetTokens : List UInt32) :
    ∃ next, stats.record (.ofTargets draft schedule targetTokens) = .ok next := by
  have hdrafted : draft.len ≤ maxSpeculativeDraftTokens := draft.length_tokens_le
  have hscheduled := schedule.scheduledLen_le_max draft
  have haccepted :=
    SpeculativeVerificationV1.accepted_ofTargets_le draft schedule targetTokens
  have hemitted : (SpeculativeVerificationV1.ofTargets draft schedule
      targetTokens).emittedTokens.length ≤ maxSpeculativeDraftTokens + 1 := by
    show (speculated _ _).length ≤ _
    rw [speculated, List.length_append, List.length_take, schedule.length_scheduled]
    have := Option.length_toList_le
      (o := targetTokens[agreement (schedule.scheduled draft) targetTokens]?)
    omega
  have hskipped : (SpeculativeVerificationV1.ofTargets draft schedule
      targetTokens).skippedBySchedule ≤ maxSpeculativeDraftTokens :=
    (Nat.sub_le _ _).trans hdrafted
  refine add_bind le_rfl h.steps_lt (add_bind hdrafted h.drafted_lt
    (add_bind hscheduled h.scheduled_lt (add_bind (haccepted.trans hscheduled) h.accepted_lt
      (add_bind hemitted h.emitted_lt (add_bind hskipped h.skippedBySchedule_lt ?_)))))
  split_ifs
  · exact add_bind le_rfl h.stepsWithRejection_lt ⟨_, rfl⟩
  · exact ⟨_, rfl⟩

end SpeculativeAcceptanceStatsV1

end NNIS
