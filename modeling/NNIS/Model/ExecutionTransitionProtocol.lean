import NNIS.Model.ExecutionTransition
import NNIS.Semantics.Labelled
import NNIS.Semantics.Outcome

/-!
# The rebuild protocol

The protocol of a rebuild: the runtime is asked to quiesce, to count its sessions, to confirm its
source weights, to rebuild, to verify, to invalidate and to commit, each only after the answers
before it allow it; a failure leads to one rollback, after which nothing is asked. Every execution
of the coordinator is a run of this protocol, whatever the runtime answers, and what is said below
of the calls of an execution is proved of the runs of the protocol.

## Main definitions

* `RebuildStage`, `RebuildStage.Step` — the protocol.
* `TransitionEvent.kind`, `TransitionEvent.Failed`, `F16RebuildTransitionV1.receipt`.

## Main results

* `RebuildExecution.execute_spec` — an admitted execution is a run of the protocol.
* `RebuildStage.events_of_commit`, `RebuildStage.rollback_of_failed`,
  `RebuildStage.forward_isPrefix` — what holds of runs.
* `RebuildExecution.execute_protocol`.
-/

set_option autoImplicit false

namespace NNIS

/-! ### Calls -/

/-- The operations of the runtime. -/
inductive TransitionCall
  | beginQuiescence
  | activeSessionCount
  | sourceWeightsAvailable
  | rebuildCandidate
  | verifyCandidate
  | invalidateSessionsAndKv
  | commitCandidate
  | rollbackToSource
  deriving DecidableEq

/-- The order of the operations of a rebuild. -/
def TransitionCall.order : List TransitionCall :=
  [beginQuiescence, activeSessionCount, sourceWeightsAvailable, rebuildCandidate, verifyCandidate,
    invalidateSessionsAndKv, commitCandidate]

namespace TransitionEvent

variable {κ : Type}

/-- The operation that was called. -/
def kind : TransitionEvent κ → TransitionCall
  | beginQuiescence _ => .beginQuiescence
  | activeSessionCount _ => .activeSessionCount
  | sourceWeightsAvailable _ => .sourceWeightsAvailable
  | rebuildCandidate _ _ => .rebuildCandidate
  | verifyCandidate _ _ => .verifyCandidate
  | invalidateSessionsAndKv _ => .invalidateSessionsAndKv
  | commitCandidate _ _ => .commitCandidate
  | rollbackToSource _ => .rollbackToSource

/-- An operation was refused, sessions were left or the source weights were gone. -/
def Failed : TransitionEvent κ → Prop
  | beginQuiescence answer => answer ≠ .ok ⟨⟩
  | activeSessionCount answer => answer ≠ 0
  | sourceWeightsAvailable answer => answer = false
  | rebuildCandidate _ answer => ∀ candidate, answer ≠ .ok candidate
  | verifyCandidate _ answer => answer ≠ .ok ⟨⟩
  | invalidateSessionsAndKv answer => answer ≠ .ok ⟨⟩
  | commitCandidate _ answer => answer ≠ .ok ⟨⟩
  | rollbackToSource answer => answer ≠ .ok ⟨⟩

end TransitionEvent

/-! ### The protocol -/

/-- What the coordinator does next. -/
inductive RebuildStage (κ : Type)
  | quiesce
  | count
  | weights
  | rebuild
  | verify (candidate : κ)
  | invalidate (candidate : κ)
  | commit (candidate : κ)
  | rollback
  | committed
  | rolledBack

namespace RebuildStage

variable {κ : Type} {targetPlan : F16ReferenceExecutionPlan}

/-- A call, whatever its answer, is the one that a stage makes. -/
def Asks (targetPlan : F16ReferenceExecutionPlan) : RebuildStage κ → TransitionEvent κ → Prop
  | quiesce, .beginQuiescence _ => True
  | count, .activeSessionCount _ => True
  | weights, .sourceWeightsAvailable _ => True
  | rebuild, .rebuildCandidate plan _ => plan = targetPlan
  | verify candidate, .verifyCandidate candidate' _ => candidate' = candidate
  | invalidate _, .invalidateSessionsAndKv _ => True
  | commit candidate, .commitCandidate candidate' _ => candidate' = candidate
  | rollback, .rollbackToSource _ => True
  | _, _ => False

/-- The execution is over. -/
def Done : RebuildStage κ → Prop
  | committed | rolledBack => True
  | _ => False

/-- The steps of the protocol for a target plan. -/
inductive Step (targetPlan : F16ReferenceExecutionPlan) :
    RebuildStage κ → TransitionEvent κ → RebuildStage κ → Prop
  | quiesced : Step targetPlan quiesce (.beginQuiescence (.ok ⟨⟩)) count
  | drained : Step targetPlan count (.activeSessionCount 0) weights
  | available : Step targetPlan weights (.sourceWeightsAvailable true) rebuild
  | rebuilt (candidate : κ) :
      Step targetPlan rebuild (.rebuildCandidate targetPlan (.ok candidate)) (verify candidate)
  | verified (candidate : κ) :
      Step targetPlan (verify candidate) (.verifyCandidate candidate (.ok ⟨⟩))
        (invalidate candidate)
  | invalidated (candidate : κ) :
      Step targetPlan (invalidate candidate) (.invalidateSessionsAndKv (.ok ⟨⟩))
        (commit candidate)
  | committed (candidate : κ) :
      Step targetPlan (commit candidate) (.commitCandidate candidate (.ok ⟨⟩)) committed
  | failed {stage : RebuildStage κ} {event : TransitionEvent κ}
      (hasks : Asks targetPlan stage event)
      (hstage : stage ≠ rollback) (hfailed : event.Failed) : Step targetPlan stage event rollback
  | rolledBack (answer : Except NnisError PUnit) :
      Step targetPlan rollback (.rollbackToSource answer) rolledBack

/-- A run of the protocol. -/
abbrev Run (targetPlan : F16ReferenceExecutionPlan) :
    List (TransitionEvent κ) → RebuildStage κ → Prop :=
  LabelledRun (Step targetPlan) quiesce

/-- The call of a step is the one of its stage. -/
theorem Step.asks {stage next : RebuildStage κ} {event : TransitionEvent κ}
    (h : Step targetPlan stage event next) : Asks targetPlan stage event := by
  cases h with
  | failed hasks _ _ => exact hasks
  | rebuilt | verified | committed => exact rfl
  | quiesced | drained | available | invalidated | rolledBack => exact trivial

/-- Nothing is asked after a commit or a rollback. -/
private theorem not_step_of_done {stage : RebuildStage κ} (h : stage.Done)
    (event : TransitionEvent κ) (next : RebuildStage κ) : ¬ Step targetPlan stage event next := by
  intro hstep
  cases stage with
  | committed | rolledBack => exact hstep.asks
  | _ => exact h

/-- A failed call other than a rollback leads to the rollback. -/
theorem Step.eq_rollback {stage next : RebuildStage κ} {event : TransitionEvent κ}
    (h : Step targetPlan stage event next) (hfailed : event.Failed)
    (hkind : event.kind ≠ .rollbackToSource) : next = rollback := by
  cases h with
  | failed => rfl
  | quiesced => exact absurd rfl hfailed
  | drained => exact absurd rfl hfailed
  | available => exact absurd hfailed nofun
  | rebuilt candidate => exact absurd rfl (hfailed candidate)
  | verified candidate => exact absurd rfl hfailed
  | invalidated candidate => exact absurd rfl hfailed
  | committed candidate => exact absurd rfl hfailed
  | rolledBack answer => exact absurd rfl hkind

/-- What follows once the rollback is due. -/
theorem events_from_rollback {events : List (TransitionEvent κ)} {stage : RebuildStage κ}
    (h : LabelledRun (Step targetPlan) rollback events stage) :
    (events = [] ∧ stage = rollback) ∨
      ∃ answer, events = [.rollbackToSource answer] ∧ stage = rolledBack := by
  refine h.invariant (fun events stage => (events = [] ∧ stage = rollback) ∨
    ∃ answer, events = [.rollbackToSource answer] ∧ stage = rolledBack) (.inl ⟨rfl, rfl⟩) ?_
  rintro events stage event next (⟨rfl, rfl⟩ | ⟨answer, rfl, rfl⟩) hstep
  · cases hstep with
    | failed _ hstage _ => exact absurd rfl hstage
    | rolledBack answer => exact .inr ⟨answer, rfl, rfl⟩
  · have hdone : Done (rolledBack : RebuildStage κ) := trivial
    exact absurd hstep (not_step_of_done hdone event next)

/-- After a failed call there is one rollback and nothing else. -/
theorem rollback_of_failed {before after : List (TransitionEvent κ)} {event : TransitionEvent κ}
    {stage : RebuildStage κ} (h : Run targetPlan (before ++ event :: after) stage)
    (hdone : stage.Done) (hfailed : event.Failed)
    (hkind : event.kind ≠ .rollbackToSource) : ∃ answer, after = [.rollbackToSource answer] := by
  obtain ⟨_, next, -, hstep, hrest⟩ := h.split_at
  obtain rfl := hstep.eq_rollback hfailed hkind
  rcases events_from_rollback hrest with ⟨-, rfl⟩ | ⟨answer, rfl, -⟩
  · exact hdone.elim
  · exact ⟨answer, rfl⟩

/-- A rollback is the last call. -/
theorem eq_nil_of_rollback {before after : List (TransitionEvent κ)}
    {answer : Except NnisError PUnit} {stage : RebuildStage κ}
    (h : Run targetPlan (before ++ .rollbackToSource answer :: after) stage) : after = [] := by
  obtain ⟨stage', next, -, hstep, hrest⟩ := h.split_at
  have hasks := hstep.asks
  cases stage' with
  | rollback =>
    cases hstep with
    | failed _ hstage _ => exact absurd rfl hstage
    | rolledBack =>
      have hdone : Done (rolledBack : RebuildStage κ) := trivial
      exact (hrest.eq_nil_of_stuck (not_step_of_done hdone)).1
  | _ => exact hasks.elim

/-- A rollback ends with its call. -/
theorem exists_of_rolledBack {events : List (TransitionEvent κ)}
    (h : Run targetPlan events rolledBack) :
    ∃ before answer, events = before ++ [.rollbackToSource answer] := by
  cases h with
  | snoc event run last =>
    cases last with
    | rolledBack answer => exact ⟨_, answer, rfl⟩

/-- The calls before a stage that is reached without a failure. -/
def History (targetPlan : F16ReferenceExecutionPlan) :
    RebuildStage κ → List (TransitionEvent κ) → Prop
  | quiesce, events => events = []
  | count, events => events = [.beginQuiescence (.ok ⟨⟩)]
  | weights, events => events = [.beginQuiescence (.ok ⟨⟩), .activeSessionCount 0]
  | rebuild, events => events =
      [.beginQuiescence (.ok ⟨⟩), .activeSessionCount 0, .sourceWeightsAvailable true]
  | verify candidate, events => events =
      [.beginQuiescence (.ok ⟨⟩), .activeSessionCount 0, .sourceWeightsAvailable true,
        .rebuildCandidate targetPlan (.ok candidate)]
  | invalidate candidate, events => events =
      [.beginQuiescence (.ok ⟨⟩), .activeSessionCount 0, .sourceWeightsAvailable true,
        .rebuildCandidate targetPlan (.ok candidate), .verifyCandidate candidate (.ok ⟨⟩)]
  | commit candidate, events => events =
      [.beginQuiescence (.ok ⟨⟩), .activeSessionCount 0, .sourceWeightsAvailable true,
        .rebuildCandidate targetPlan (.ok candidate), .verifyCandidate candidate (.ok ⟨⟩),
        .invalidateSessionsAndKv (.ok ⟨⟩)]
  | committed, events => ∃ candidate, events =
      [.beginQuiescence (.ok ⟨⟩), .activeSessionCount 0, .sourceWeightsAvailable true,
        .rebuildCandidate targetPlan (.ok candidate), .verifyCandidate candidate (.ok ⟨⟩),
        .invalidateSessionsAndKv (.ok ⟨⟩), .commitCandidate candidate (.ok ⟨⟩)]
  | rollback, _ | rolledBack, _ => True

theorem history_of_run {events : List (TransitionEvent κ)} {stage : RebuildStage κ}
    (h : Run targetPlan events stage) : stage.History targetPlan events := by
  refine h.invariant (fun events stage => stage.History targetPlan events) rfl ?_
  intro events stage event next hhistory hstep
  cases hstep with
  | failed | rolledBack => exact trivial
  | quiesced | drained | available | rebuilt | verified | invalidated =>
    simp only [History] at hhistory ⊢
    rw [hhistory]
    rfl
  | committed candidate =>
    simp only [History] at hhistory ⊢
    rw [hhistory]
    exact ⟨candidate, rfl⟩

/-- A commit is asked for only after all of the earlier operations succeeded, with no session left
and the source weights at hand. -/
theorem events_of_commit {before after : List (TransitionEvent κ)} {candidate : κ}
    {answer : Except NnisError PUnit} {stage : RebuildStage κ}
    (h : Run targetPlan (before ++ .commitCandidate candidate answer :: after) stage) :
    before =
      [.beginQuiescence (.ok ⟨⟩), .activeSessionCount 0, .sourceWeightsAvailable true,
        .rebuildCandidate targetPlan (.ok candidate), .verifyCandidate candidate (.ok ⟨⟩),
        .invalidateSessionsAndKv (.ok ⟨⟩)] := by
  obtain ⟨stage', next, hbefore, hstep, -⟩ := h.split_at
  have hasks := hstep.asks
  have hhistory := history_of_run hbefore
  cases stage' with
  | commit rebuilt =>
    obtain rfl : candidate = rebuilt := hasks
    exact hhistory
  | _ => exact hasks.elim

/-- The number of operations called before a stage that is reached without a failure. -/
def position : RebuildStage κ → ℕ
  | quiesce => 0
  | count => 1
  | weights => 2
  | rebuild => 3
  | verify _ => 4
  | invalidate _ => 5
  | commit _ => 6
  | committed | rollback | rolledBack => 7

/-- The operations called, rollbacks apart. -/
def forward (events : List (TransitionEvent κ)) : List TransitionCall :=
  (events.map TransitionEvent.kind).filter (· ≠ .rollbackToSource)

theorem forward_of_history {events : List (TransitionEvent κ)} {stage : RebuildStage κ}
    (h : stage.History targetPlan events) (hne : stage ≠ rollback) (hne' : stage ≠ rolledBack) :
    forward events = TransitionCall.order.take stage.position := by
  cases stage with
  | rollback => exact absurd rfl hne
  | rolledBack => exact absurd rfl hne'
  | committed =>
    obtain ⟨candidate, rfl⟩ := h
    rfl
  | _ =>
    simp only [History] at h
    rw [h]
    rfl

/-- The call of a stage is the next one of the order. -/
private theorem isPrefix_of_asks {stage : RebuildStage κ} {event : TransitionEvent κ}
    (h : Asks targetPlan stage event) (hne : stage ≠ rollback) :
    TransitionCall.order.take stage.position ++ forward [event] <+: TransitionCall.order := by
  cases stage with
  | quiesce =>
    cases event with
    | beginQuiescence => exact List.take_prefix 1 TransitionCall.order
    | _ => exact h.elim
  | count =>
    cases event with
    | activeSessionCount => exact List.take_prefix 2 TransitionCall.order
    | _ => exact h.elim
  | weights =>
    cases event with
    | sourceWeightsAvailable => exact List.take_prefix 3 TransitionCall.order
    | _ => exact h.elim
  | rebuild =>
    cases event with
    | rebuildCandidate => exact List.take_prefix 4 TransitionCall.order
    | _ => exact h.elim
  | verify =>
    cases event with
    | verifyCandidate => exact List.take_prefix 5 TransitionCall.order
    | _ => exact h.elim
  | invalidate =>
    cases event with
    | invalidateSessionsAndKv => exact List.take_prefix 6 TransitionCall.order
    | _ => exact h.elim
  | commit =>
    cases event with
    | commitCandidate => exact List.take_prefix 7 TransitionCall.order
    | _ => exact h.elim
  | rollback => exact absurd rfl hne
  | committed | rolledBack => exact h.elim

/-- The operations called, rollbacks apart, are the first ones of the order. -/
theorem forward_isPrefix {events : List (TransitionEvent κ)} {stage : RebuildStage κ}
    (h : Run targetPlan events stage) : forward events <+: TransitionCall.order := by
  have hrun : Run targetPlan events stage ∧ forward events <+: TransitionCall.order := by
    refine h.invariant (fun events stage => Run targetPlan events stage ∧
      forward events <+: TransitionCall.order) ⟨.nil, List.nil_prefix⟩ ?_
    rintro events stage event next ⟨hrun, hprevious⟩ hstep
    refine ⟨.snoc event hrun hstep, ?_⟩
    have hsplit : forward (events ++ [event]) = forward events ++ forward [event] := by
      rw [forward, List.map_append, List.filter_append]
      rfl
    have hasks := hstep.asks
    by_cases hrollback : stage = rollback
    · subst hrollback
      cases event with
      | rollbackToSource answer =>
        rw [hsplit]
        change forward events ++ [] <+: _
        rwa [List.append_nil]
      | _ => exact hasks.elim
    · have hhistory := history_of_run hrun
      have hne : stage ≠ rolledBack := by
        rintro rfl
        exact hasks
      rw [hsplit, forward_of_history hhistory hrollback hne]
      exact isPrefix_of_asks hasks hrollback
  exact hrun.2

end RebuildStage

/-! ### The coordinator -/

/-- The receipt of a transition. -/
def F16RebuildTransitionV1.receipt (transition : F16RebuildTransitionV1) :
    F16RebuildTransitionReceiptV1 where
  schemaVersion := nnisF16RebuildTransitionVersion
  sourcePlan := transition.sourcePlan
  targetPlan := transition.targetPlan
  requiredDoubleResidentBytes := transition.memoryBudget.sourceResidentOwnedBytes +
    transition.memoryBudget.targetPeakOwnedBytes
  budgetHeadroomBytes := transition.memoryBudget.transitionBudgetBytes -
    (transition.memoryBudget.sourceResidentOwnedBytes +
      transition.memoryBudget.targetPeakOwnedBytes)
  sourceRetainedUntilCommit := true
  sessionsInvalidated := true
  kvStateReset := true
  candidateVerified := true
  committed := true
  liveTransitionClaimed := false

/-- What an admitted transition satisfies. -/
theorem F16RebuildTransitionV1.of_validatePreconditions {transition : F16RebuildTransitionV1}
    (h : transition.validatePreconditions = .ok ⟨⟩) :
    transition.phase = .prepared ∧ transition.sourcePlan ≠ transition.targetPlan ∧
      transition.memoryBudget.requiredDoubleResidentBytes =
        .ok transition.receipt.requiredDoubleResidentBytes ∧
      transition.memoryBudget.headroomBytes = .ok transition.receipt.budgetHeadroomBytes := by
  unfold validatePreconditions at h
  split_ifs at h with hschema hphase hplans heq
  have hrequirements : transition.targetPlan.transitionRequirements.validate = .ok ⟨⟩ := rfl
  rw [hrequirements] at h
  change transition.memoryBudget.validate = _ at h
  unfold F16RebuildMemoryBudgetV1.validate at h
  split_ifs at h with hbudget hzero
  have hheadroom : ∃ headroom, transition.memoryBudget.headroomBytes = .ok headroom := by
    cases hheadroom : transition.memoryBudget.headroomBytes with
    | error e =>
      rw [hheadroom] at h
      exact absurd h nofun
    | ok headroom => exact ⟨headroom, rfl⟩
  obtain ⟨headroom, hheadroom⟩ := hheadroom
  refine ⟨Decidable.of_not_not hphase, heq, ?_⟩
  unfold F16RebuildMemoryBudgetV1.headroomBytes at hheadroom ⊢
  unfold F16RebuildMemoryBudgetV1.requiredDoubleResidentBytes at hheadroom ⊢
  cases hsum : checkedAdd transition.memoryBudget.sourceResidentOwnedBytes
      transition.memoryBudget.targetPeakOwnedBytes with
  | none =>
    rw [hsum] at hheadroom
    exact absurd hheadroom nofun
  | some required =>
    obtain ⟨rfl, -⟩ := checkedAdd_eq_some_iff.1 hsum
    rw [hsum] at hheadroom
    refine ⟨rfl, ?_⟩
    by_cases hle : transition.memoryBudget.sourceResidentOwnedBytes +
        transition.memoryBudget.targetPeakOwnedBytes ≤
          transition.memoryBudget.transitionBudgetBytes
    · exact if_pos hle
    · exact absurd ((if_neg hle).symm.trans hheadroom) nofun

/-- An admitted transition has its receipt in every phase. -/
theorem F16RebuildTransitionV1.issueReceipt_eq {transition : F16RebuildTransitionV1}
    (h : transition.validatePreconditions = .ok ⟨⟩) (phase : F16RebuildTransitionPhase) :
    issueReceipt { transition with phase } = .ok transition.receipt := by
  obtain ⟨-, hne, hrequired, hheadroom⟩ := of_validatePreconditions h
  have hreceipt : transition.receipt.validate = .ok ⟨⟩ := by
    rw [F16RebuildTransitionReceiptV1.validate, if_neg (fun h => h rfl), if_neg]
    · rfl
    · rintro (h | h | h | h | h | h | h)
      · exact hne h
      all_goals exact absurd h nofun
  rw [issueReceipt, hrequired, Except.ok_bind, hheadroom, Except.ok_bind]
  exact congrArg (fun r : Except NnisError PUnit => r >>= fun _ => pure transition.receipt) hreceipt

namespace RebuildExecution

variable {σ κ : Type} {t : F16RebuildTransitionV1}

/-- A transition in the course of its execution has reached a stage of the protocol. -/
structure At (t : F16RebuildTransitionV1) (stage : RebuildStage κ) (s : RebuildExecution σ κ) :
    Prop where
  run : RebuildStage.Run t.targetPlan s.events stage
  transition : ∃ phase, s.transition = { t with phase }

/-- The transition was committed. -/
structure Committed (t : F16RebuildTransitionV1) (receipt : F16RebuildTransitionReceiptV1)
    (s : RebuildExecution σ κ) : Prop where
  run : RebuildStage.Run t.targetPlan s.events .committed
  transition : s.transition = { t with phase := .committed }
  receipt_eq : receipt = t.receipt

/-- The transition was rolled back. -/
structure RolledBack (t : F16RebuildTransitionV1) (s : RebuildExecution σ κ) : Prop where
  run : RebuildStage.Run t.targetPlan s.events .rolledBack
  transition : s.transition = { t with phase := .rolledBack }

/-- Entering a phase is no step of the protocol. -/
private theorem enter_spec (phase : F16RebuildTransitionPhase) (stage : RebuildStage κ) :
    Fallible.Spec (At (σ := σ) t stage) (enter phase) (fun _ => At t stage)
      fun _ => RolledBack t := by
  refine Fallible.Spec.modify _ fun s hs => ⟨hs.run, phase, ?_⟩
  obtain ⟨phase', hphase⟩ := hs.transition
  change { s.transition with phase } = _
  rw [hphase]

/-- A call is the step of the protocol that its answer decides. -/
private theorem ask_spec {α : Type} {operation : σ → α × σ} {event : α → TransitionEvent κ}
    {stage : RebuildStage κ} (next : α → RebuildStage κ)
    (h : ∀ answer, RebuildStage.Step t.targetPlan stage (event answer) (next answer)) :
    Fallible.Spec (At t stage) (ask operation event) (fun answer => At t (next answer))
      fun _ => RolledBack t :=
  fun s hs => ⟨.snoc _ hs.run (h (operation s.runtime).1), hs.transition⟩

variable (rt : F16RebuildTransitionRuntime σ κ)

/-- Rolling back is the last step of the protocol. -/
theorem rollback_spec (primary : NnisError) :
    Fallible.Spec (At t .rollback) (rollback rt primary) (Committed t) fun _ => RolledBack t := by
  refine (enter_spec _ _).bind fun _ => ?_
  refine (ask_spec (fun _ => .rolledBack) fun answer => .rolledBack answer).bind fun answer => ?_
  have henter : Fallible.Spec (At (σ := σ) (κ := κ) t .rolledBack) (enter .rolledBack)
      (fun _ => RolledBack t) fun _ => RolledBack t := by
    refine Fallible.Spec.modify _ fun s hs => ⟨hs.run, ?_⟩
    obtain ⟨phase, hphase⟩ := hs.transition
    change { s.transition with phase := .rolledBack } = _
    rw [hphase]
  refine henter.bind fun _ => ?_
  cases answer with
  | ok _ => exact Fallible.Spec.fail _ fun _ hs => hs
  | error _ => exact Fallible.Spec.fail _ fun _ hs => hs

/-- The stage that the answer of a call leads to. -/
private def afterAnswer {α : Type} (next : α → RebuildStage κ) : Except NnisError α → RebuildStage κ
  | .ok a => next a
  | .error _ => .rollback

/-- A call that may be refused: it is followed by what its answer allows, or by the rollback. -/
private theorem attempt_spec {α : Type} {operation : σ → Except NnisError α × σ}
    {event : Except NnisError α → TransitionEvent κ} {stage : RebuildStage κ}
    (next : α → RebuildStage κ)
    (hok : ∀ a, RebuildStage.Step t.targetPlan stage (event (.ok a)) (next a))
    (herror : ∀ e, RebuildStage.Step t.targetPlan stage (event (.error e)) .rollback)
    {rest : Except NnisError α → Fallible (RebuildExecution σ κ) NnisError
      F16RebuildTransitionReceiptV1}
    (hrest : ∀ a, Fallible.Spec (At t (next a)) (rest (.ok a)) (Committed t) fun _ => RolledBack t)
    (hroll : ∀ e, rest (.error e) = rollback rt e) :
    Fallible.Spec (At t stage) (ask operation event >>= rest) (Committed t)
      fun _ => RolledBack t := by
  refine (ask_spec (afterAnswer next) fun answer => ?_).bind fun answer => ?_
  · cases answer with
    | ok a => exact hok a
    | error e => exact herror e
  · cases answer with
    | ok a => exact hrest a
    | error e =>
      rw [hroll]
      exact rollback_spec rt e

/-- Committing a verified candidate. -/
theorem commit_spec (hvalid : t.validatePreconditions = .ok ⟨⟩) (candidate : κ) :
    Fallible.Spec (At t (.commit candidate)) (commit rt candidate) (Committed t)
      fun _ => RolledBack t := by
  refine (enter_spec _ _).bind fun _ => ?_
  refine attempt_spec rt (fun _ => .committed) (fun _ => .committed candidate)
    (fun _ => .failed rfl nofun nofun) (fun _ => ?_) fun _ => rfl
  refine Fallible.Spec.bind (R := fun _ s => RebuildStage.Run t.targetPlan s.events .committed ∧
    s.transition = { t with phase := .committed }) ?_ fun _ => ?_
  · refine Fallible.Spec.modify _ fun s hs => ⟨hs.run, ?_⟩
    obtain ⟨phase, hphase⟩ := hs.transition
    change { s.transition with phase := .committed } = _
    rw [hphase]
  · refine Fallible.Spec.of_forall fun s hs => Fallible.Spec.get_bind ?_
    rw [hs.2, F16RebuildTransitionV1.issueReceipt_eq hvalid]
    rintro _ rfl
    exact ⟨hs.1, hs.2, rfl⟩

theorem invalidate_spec (hvalid : t.validatePreconditions = .ok ⟨⟩) (candidate : κ) :
    Fallible.Spec (At t (.invalidate candidate)) (invalidate rt candidate) (Committed t)
      fun _ => RolledBack t := by
  refine (enter_spec _ _).bind fun _ => ?_
  exact attempt_spec rt (fun _ => .commit candidate) (fun _ => .invalidated candidate)
    (fun _ => .failed trivial nofun nofun) (fun _ => commit_spec rt hvalid candidate) fun _ => rfl

theorem verify_spec (hvalid : t.validatePreconditions = .ok ⟨⟩) (candidate : κ) :
    Fallible.Spec (At t (.verify candidate)) (verify rt candidate) (Committed t)
      fun _ => RolledBack t := by
  refine (enter_spec _ _).bind fun _ => ?_
  exact attempt_spec rt (fun _ => .invalidate candidate) (fun _ => .verified candidate)
    (fun _ => .failed rfl nofun nofun) (fun _ => invalidate_spec rt hvalid candidate) fun _ => rfl

theorem rebuild_spec (hvalid : t.validatePreconditions = .ok ⟨⟩) :
    Fallible.Spec (At t .rebuild) (rebuild rt) (Committed t) fun _ => RolledBack t := by
  refine (enter_spec _ _).bind fun _ => ?_
  refine Fallible.Spec.of_forall fun s hs => Fallible.Spec.get_bind ?_
  obtain ⟨phase, hphase⟩ := hs.transition
  have htarget : s.transition.targetPlan = t.targetPlan := by rw [hphase]
  refine Fallible.Spec.conseq (P := At t .rebuild) ?_ (fun _ h => h ▸ hs) (fun _ _ h => h)
    fun _ _ h => h
  simp only [htarget]
  exact attempt_spec rt .verify (fun candidate => .rebuilt candidate)
    (fun _ => .failed rfl nofun fun _ => nofun) (fun candidate => verify_spec rt hvalid candidate)
    fun _ => rfl

theorem checkQuiescence_spec (hvalid : t.validatePreconditions = .ok ⟨⟩) :
    Fallible.Spec (At t .count) (checkQuiescence rt) (Committed t) fun _ => RolledBack t := by
  refine (ask_spec (fun sessions => if sessions = 0 then .weights else .rollback)
    fun sessions => ?_).bind fun sessions => ?_
  · by_cases hzero : sessions = 0
    · rw [if_pos hzero, hzero]
      exact .drained
    · rw [if_neg hzero]
      exact .failed trivial nofun hzero
  · by_cases hzero : sessions = 0
    · simp only [hzero, ↓reduceIte, ne_eq, not_true_eq_false]
      refine (ask_spec (fun available => if available = true then .rebuild else .rollback)
        fun available => ?_).bind fun available => ?_
      · cases available with
        | true => exact .available
        | false => exact .failed trivial nofun rfl
      · cases available with
        | true => exact rebuild_spec rt hvalid
        | false => exact rollback_spec rt _
    · simp only [hzero, ↓reduceIte, ne_eq, not_false_eq_true]
      exact rollback_spec rt _

/-- An admitted execution is a run of the protocol: it commits with the receipt of the transition,
or it is rolled back. -/
theorem execute_spec (hvalid : t.validatePreconditions = .ok ⟨⟩) :
    Fallible.Spec (fun s => s.transition = t ∧ s.events = []) (execute rt) (Committed t)
      fun _ => RolledBack t := by
  refine Fallible.Spec.of_forall fun s hs => Fallible.Spec.get_bind ?_
  obtain ⟨htransition, hevents⟩ := hs
  rw [htransition, hvalid, Fallible.ofExcept_ok_bind]
  refine Fallible.Spec.conseq (P := At t .quiesce) ?_ (fun s' h => ?_) (fun _ _ h => h)
    fun _ _ h => h
  · refine (enter_spec _ _).bind fun _ => ?_
    exact attempt_spec rt (fun _ => .count) (fun _ => .quiesced)
      (fun _ => .failed trivial nofun nofun) (fun _ => checkQuiescence_spec rt hvalid) fun _ => rfl
  · rw [h]
    exact ⟨hevents ▸ .nil, t.phase, htransition⟩

/-- A transition that is not admitted makes no call and is left as it was. -/
theorem execute_of_error {e : NnisError} (h : t.validatePreconditions = .error e) (state : σ) :
    (execute rt).run ⟨t, state, []⟩ = (.error e, ⟨t, state, []⟩) := by
  rw [execute, Fallible.run_bind_ok (Fallible.run_get _)]
  exact Fallible.run_bind_error (by rw [h]; rfl) _

/-! ### What an execution does -/

/-- The calls and the result of the execution of a transition. -/
structure FollowsProtocol (t : F16RebuildTransitionV1)
    (result : Except NnisError F16RebuildTransitionReceiptV1) (s : RebuildExecution σ κ) :
    Prop where
  /-- The operations are called in the order of a rebuild. -/
  ordered : RebuildStage.forward s.events <+: TransitionCall.order
  /-- After a failed call there is one rollback and nothing else. -/
  stops : ∀ before event after, s.events = before ++ event :: after → event.Failed →
    event.kind ≠ .rollbackToSource → ∃ answer, after = [.rollbackToSource answer]
  /-- A rollback is the last call. -/
  rollback_last : ∀ before answer after, s.events = before ++ .rollbackToSource answer :: after →
    after = []
  /-- A commit is asked for after all of the earlier operations succeeded for its candidate, with
  no session left and the source weights at hand. -/
  commit_last : ∀ before candidate answer after,
    s.events = before ++ .commitCandidate candidate answer :: after → before =
      [.beginQuiescence (.ok ⟨⟩), .activeSessionCount 0, .sourceWeightsAvailable true,
        .rebuildCandidate t.targetPlan (.ok candidate), .verifyCandidate candidate (.ok ⟨⟩),
        .invalidateSessionsAndKv (.ok ⟨⟩)]
  /-- The result is a receipt exactly when an admitted transition was committed, and the receipt is
  the one of the transition. -/
  receipt_iff : ∀ receipt, result = .ok receipt ↔
    t.validatePreconditions = .ok ⟨⟩ ∧ s.transition.phase = .committed ∧ receipt = t.receipt
  /-- A committed transition asked for no rollback. -/
  committed : ∀ receipt, result = .ok receipt →
    RebuildStage.History t.targetPlan .committed s.events
  /-- An admitted transition that was not committed was rolled back, once and at the end. -/
  rolledBack : t.validatePreconditions = .ok ⟨⟩ → ∀ error, result = .error error →
    s.transition.phase = .rolledBack ∧
      ∃ before answer, s.events = before ++ [.rollbackToSource answer]

/-- What holds of the calls of every complete run. -/
private theorem followsProtocol_of_run {result : Except NnisError F16RebuildTransitionReceiptV1}
    {s : RebuildExecution σ κ} {stage : RebuildStage κ}
    (hrun : RebuildStage.Run t.targetPlan s.events stage) (hdone : stage.Done)
    (hreceipt : ∀ receipt, result = .ok receipt ↔
      t.validatePreconditions = .ok ⟨⟩ ∧ s.transition.phase = .committed ∧ receipt = t.receipt)
    (hcommitted : ∀ receipt, result = .ok receipt → stage = .committed)
    (hrolledBack : ∀ error, result = .error error →
      stage = .rolledBack ∧ s.transition.phase = .rolledBack) : FollowsProtocol t result s where
  ordered := RebuildStage.forward_isPrefix hrun
  stops before event after hevents := by
    rw [hevents] at hrun
    exact RebuildStage.rollback_of_failed hrun hdone
  rollback_last before answer after hevents := by
    rw [hevents] at hrun
    exact RebuildStage.eq_nil_of_rollback hrun
  commit_last before candidate answer after hevents := by
    rw [hevents] at hrun
    exact RebuildStage.events_of_commit hrun
  receipt_iff := hreceipt
  committed receipt hresult := by
    obtain rfl := hcommitted receipt hresult
    exact RebuildStage.history_of_run hrun
  rolledBack _ error hresult := by
    obtain ⟨rfl, hphase⟩ := hrolledBack error hresult
    exact ⟨hphase, RebuildStage.exists_of_rolledBack hrun⟩

/-- A transition that is not admitted makes no call. -/
private theorem followsProtocol_of_error {e : NnisError} (h : t.validatePreconditions = .error e)
    (state : σ) : FollowsProtocol t (.error e) (⟨t, state, []⟩ : RebuildExecution σ κ) where
  ordered := List.nil_prefix
  stops _ _ _ hevents := absurd hevents.symm (List.append_ne_nil_of_right_ne_nil _ nofun)
  rollback_last _ _ _ hevents := absurd hevents.symm (List.append_ne_nil_of_right_ne_nil _ nofun)
  commit_last _ _ _ _ hevents := absurd hevents.symm (List.append_ne_nil_of_right_ne_nil _ nofun)
  receipt_iff _ := ⟨nofun, fun hvalid => absurd (h.symm.trans hvalid.1) nofun⟩
  committed _ hresult := absurd hresult nofun
  rolledBack hvalid := absurd (h.symm.trans hvalid) nofun

/-- A transition that has left its first phase makes no call. -/
theorem events_of_phase_ne {t : F16RebuildTransitionV1} (h : t.phase ≠ .prepared) (state : σ) :
    ((execute rt).run ⟨t, state, []⟩).2.events = [] := by
  cases hvalid : t.validatePreconditions with
  | ok _ => exact absurd (F16RebuildTransitionV1.of_validatePreconditions hvalid).1 h
  | error e => rw [execute_of_error rt hvalid]

/-- The protocol of a rebuild, for every runtime.

* The execution of a transition makes the calls of the protocol and returns a receipt exactly when
  an admitted transition was committed.
* A transition that is not admitted makes no call, is left as it was and is refused.
* A transition that has been executed makes no call when it is executed again. -/
theorem execute_protocol (t : F16RebuildTransitionV1) (state : σ) :
    FollowsProtocol t ((execute rt).run ⟨t, state, []⟩).1 ((execute rt).run ⟨t, state, []⟩).2 ∧
    (∀ e, t.validatePreconditions = .error e →
      (execute rt).run ⟨t, state, []⟩ = (.error e, ⟨t, state, []⟩)) ∧
    ∀ (σ' κ' : Type) (rt' : F16RebuildTransitionRuntime σ' κ') (state' : σ'),
      ((execute rt').run ⟨((execute rt).run ⟨t, state, []⟩).2.transition, state', []⟩).2.events =
        [] := by
  cases hvalid : t.validatePreconditions with
  | error e =>
    rw [execute_of_error rt hvalid]
    refine ⟨followsProtocol_of_error hvalid state, fun e' he => ?_, fun σ' κ' rt' state' => ?_⟩
    · rw [Except.error.inj he]
    · rw [execute_of_error rt' hvalid]
  | ok _ =>
    have hspec := execute_spec rt hvalid ⟨t, state, []⟩ ⟨rfl, rfl⟩
    rcases hrun : (execute rt).run ⟨t, state, []⟩ with ⟨error | receipt, s⟩
    · rw [hrun] at hspec
      have hphase : s.transition.phase = .rolledBack := by rw [hspec.transition]
      refine ⟨followsProtocol_of_run hspec.run trivial (fun _ => ⟨nofun, fun h => ?_⟩)
        (fun _ => nofun) (fun _ _ => ⟨rfl, hphase⟩), nofun, fun σ' κ' rt' state' => ?_⟩
      · exact absurd (hphase.symm.trans h.2.1) nofun
      · exact events_of_phase_ne rt' (by rw [hphase]; exact nofun) state'
    · rw [hrun] at hspec
      have hphase : s.transition.phase = .committed := by rw [hspec.transition]
      refine ⟨followsProtocol_of_run hspec.run trivial (fun receipt' => ⟨fun h => ?_, fun h => ?_⟩)
        (fun _ _ => rfl) (fun _ => nofun), nofun, fun σ' κ' rt' state' => ?_⟩
      · exact ⟨hvalid, hphase, (Except.ok.inj h).symm.trans hspec.receipt_eq⟩
      · rw [h.2.2, hspec.receipt_eq]
      · exact events_of_phase_ne rt' (by rw [hphase]; exact nofun) state'

end RebuildExecution

/-! ### Fields altered to other admissible values -/

/-- A runtime that grants every request. -/
def grantingRuntime : F16RebuildTransitionRuntime Unit Unit where
  beginQuiescence := pure ⟨⟩
  activeSessionCount state := (0, state)
  sourceWeightsAvailable state := (true, state)
  rebuildCandidate _ := pure ()
  verifyCandidate _ := pure ⟨⟩
  invalidateSessionsAndKv := pure ⟨⟩
  commitCandidate _ := pure ⟨⟩
  rollbackToSource := pure ⟨⟩

/-- A new transition whose target plan is replaced by another admissible one calls the runtime. -/
theorem events_of_altered_targetPlan :
    ∃ t : F16RebuildTransitionV1,
      F16RebuildTransitionV1.new (.reference .edgeLlmV0100Alignment)
        .edgeLlmV0100TransposedProjectionCandidate
        ⟨nnisF16RebuildTransitionVersion, 100, 140, 256⟩ = .ok t ∧
      t.targetPlan ≠ .edgeLlmV0100TransposedFusedGroupsCandidate ∧
      ((RebuildExecution.execute grantingRuntime).run
        ⟨{ t with targetPlan := .edgeLlmV0100TransposedFusedGroupsCandidate }, (), []⟩).2.events ≠
          [] := by
  refine ⟨_, rfl, by decide, ?_⟩
  exact nofun

end NNIS
