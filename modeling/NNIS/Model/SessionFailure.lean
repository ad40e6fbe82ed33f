import NNIS.Model.SessionAlike
import NNIS.Model.SessionCalls
import NNIS.Model.SessionRuns

/-!
# Failed verifications

A verification that fails after it has advanced rewinds the position and the layers, and leaves the
logits of the last token it has decoded. The session is unchanged when it was aligned and either the
driver refuses a call before the first launch of the LM head, or the row of the last admitted launch
happens to be the pending one.

## Main definitions

* `Session.Unchanged`.

## Main results

* `InferenceSession.unchanged_iff`.
-/

set_option autoImplicit false

namespace NNIS

namespace Session

variable {V : Type} {rt : Pipeline V}

/-- Position, rows and logits are the same, and so is the result of every following verification or
read of the logits. -/
structure Unchanged (s s' : Session rt) : Prop where
  position_eq : s'.position = s.position
  rows_eq : ∀ l < rt.config.numHiddenLayers, s'.cache.rows l = s.cache.rows l
  logits_eq : s'.logits = s.logits
  readLogits_eq : ∀ driver : Driver,
    (readLogits.run (s'.onDriver driver)).1 = (readLogits.run (s.onDriver driver)).1
  verifyGreedyDraft_eq : ∀ (driver : Driver) draft schedule stats,
    ((verifyGreedyDraft draft schedule stats).run (s'.onDriver driver)).1 =
      ((verifyGreedyDraft draft schedule stats).run (s.onDriver driver)).1

theorem Unchanged.of_core_eq {s s' : Session rt} (h : s'.core = s.core) : s.Unchanged s' := by
  have halike (driver : Driver) : Alike (s'.onDriver driver) (s.onDriver driver) :=
    ⟨rfl, h, trivial⟩
  exact {
    position_eq := congrArg Decoder.State.position h
    rows_eq := fun l _ => congrArg (fun c => c.rows l) h
    logits_eq := congrArg Decoder.State.output h
    readLogits_eq := fun driver => (readLogits_respects _ _ (halike driver)).fst_eq
    verifyGreedyDraft_eq := fun driver draft schedule stats =>
      (verifyGreedyDraft_respects draft schedule stats _ _ (halike driver)).fst_eq }

end Session

/-- A verification that fails after having advanced and is rewound returns its error. It leaves the
session unchanged exactly when every layer held one row per position and the driver admits no launch
of the LM head before the call that it refuses first, or the row of the last launch that it admits
is the pending one. -/
theorem InferenceSession.unchanged_iff (model : Model) (s s₀ s₁ s₂ : InferenceSession model)
    (draft : SpeculativeDraftV1) (schedule : ConfidenceScheduleV1)
    (stats : SpeculativeAcceptanceStatsV1) (current : List F32) (e : NnisError)
    (hvalid : Session.validateDraft s draft schedule = .ok ⟨⟩)
    (hread : Session.readCurrentLogits.run s = (.ok current, s₀))
    (hstep : (Session.speculativeStep s.position current draft schedule stats).run s₀ =
      (.error e, s₁))
    (hrewind : (Session.rewindTo s.position).run s₁ = (.ok ⟨⟩, s₂)) :
    (Session.verifyGreedyDraft draft schedule stats).run s = (.error e, s₂) ∧
      (s.Unchanged s₂ ↔ s.Aligned ∧ (s.headsAdmitted draft schedule stats = 0 ∨
        s.lastRow draft schedule (s.headsAdmitted draft schedule stats) = s.logits)) := by
  obtain ⟨hcurrent, hs₀⟩ := s.readCurrentLogits_spec.ok rfl hread
  obtain ⟨-, hcore, hle⟩ := (Session.rewindTo_spec s.position s₁).ok rfl hrewind
  obtain ⟨-, htokens, hcapacity⟩ := Session.validateDraft_eq_ok_iff.1 hvalid
  have hfailed (ha : s.Aligned) : Session.StepFailed s draft schedule stats s₁ := by
    rw [hcurrent, ← hs₀.logits_eq, ← hs₀.position_eq] at hstep
    exact hs₀.stepFailed ((s₀.speculativeStep_spec draft schedule stats (hs₀.aligned ha) htokens
      (hs₀.position_eq ▸ hcapacity)).error rfl hstep)
  have hheads (ha : s.Aligned) : s₁.heads - s.heads = s.headsAdmitted draft schedule stats := by
    rw [Session.heads_eq_of_failed ha hvalid hread hstep, Nat.add_sub_cancel_left]
  refine ⟨?_, fun h => ?_, fun ⟨ha, hrow⟩ => ?_⟩
  · rw [Session.verifyGreedyDraft, Fallible.run_bind_ok (Fallible.run_get s), hvalid,
      Fallible.run_bind_ok (Fallible.run_ofExcept _ s), Fallible.run_bind_ok hread,
      Fallible.run_bind_ok (Fallible.run_attempt _ s₀), hstep]
    show ((Session.rewindTo s.position).attempt >>= _).run s₁ = _
    rw [Fallible.run_bind_ok (Fallible.run_attempt _ s₁), hrewind]
    rfl
  · have ha : s.Aligned := by
      intro l hl
      show (s.cache.rows l).length = s.position
      have hrows : s₂.cache.rows l = (s₁.cache.rows l).take s.position :=
        congrArg (fun c => c.rows l) hcore
      rw [← h.rows_eq l hl, hrows, List.length_take, KvCache.length_rows,
        Nat.min_eq_left (hle l hl)]
    refine ⟨ha, Or.inr ?_⟩
    have hlogits : s₂.logits = s.lastRow draft schedule (s₁.heads - s.heads) :=
      congrArg Decoder.State.output (hcore.trans ((hfailed ha).core_cut ha))
    rw [← hheads ha, ← hlogits, h.logits_eq]
  · have hlast : s.lastRow draft schedule (s.headsAdmitted draft schedule stats) = s.logits := by
      refine hrow.elim (fun hzero => ?_) id
      rw [hzero, Session.lastRow_of_le (Nat.zero_le _)]
      rfl
    refine Session.Unchanged.of_core_eq ?_
    rw [hcore, (hfailed ha).core_cut ha, hheads ha, hlast]
    rfl

/-- The equivalence at a step whose second upload is refused, after one launch of the LM head. -/
theorem InferenceSession.unchanged_iff_prefilled :
    let s := prefilledSession (refusingAgain .uploadToken)
    let s₀ := (Session.readCurrentLogits.run s).2
    let s₁ := ((Session.speculativeStep 1 s.logits (oneTokenDraft 0) fourTokens noSteps).run s₀).2
    let s₂ := ((Session.rewindTo 1).run s₁).2
    s.headsAdmitted (oneTokenDraft 0) fourTokens noSteps = 1 ∧
      (s.Unchanged s₂ ↔ s.Aligned ∧ (s.headsAdmitted (oneTokenDraft 0) fourTokens noSteps = 0 ∨
        s.lastRow (oneTokenDraft 0) fourTokens
          (s.headsAdmitted (oneTokenDraft 0) fourTokens noSteps) = s.logits)) :=
  ⟨by decide, (InferenceSession.unchanged_iff alternating
    (prefilledSession (refusingAgain .uploadToken)) _ _ _ (oneTokenDraft 0) fourTokens noSteps _
      (.native "driver call failed") (by rfl) (Prod.ext rfl rfl) (Prod.ext (by rfl) rfl)
        (Prod.ext rfl rfl)).2⟩

/-- The emitted token cannot be uploaded: the step is rewound, and the pending logits are those
after the rejected draft. The next verification emits another token. -/
theorem InferenceSession.not_unchanged_of_refused_upload :
    let s := prefilledSession (refusingAgain .uploadToken)
    let run := (Session.verifyGreedyDraft (oneTokenDraft 0) fourTokens noSteps).run s
    run.1 = .error (.native "driver call failed") ∧ run.2.position = s.position ∧
      ¬ s.Unchanged run.2 ∧
      (((Session.verifyGreedyDraft (oneTokenDraft 0) fourTokens noSteps).run
        (s.onDriver fun _ _ => none)).1.map fun r => r.1.verification.emittedTokens) =
          .ok [0, 1] ∧
      (((Session.verifyGreedyDraft (oneTokenDraft 0) fourTokens noSteps).run
        (run.2.onDriver fun _ _ => none)).1.map fun r => r.1.verification.emittedTokens) =
          .ok [1] := by
  refine ⟨by decide, by decide, fun h => ?_, by decide, by decide⟩
  have hlogits := h.logits_eq
  revert hlogits
  decide

end NNIS
