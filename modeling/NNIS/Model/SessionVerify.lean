import NNIS.Model.SessionDecode

/-!
# Speculative verification in a session

What `Session.speculativeStep` does to an aligned session. When it returns, the session has been
advanced by the emitted tokens. When it fails, every layer still holds its rows, and the logits are
the last row written by the step.

## Main definitions

* `Session.target` — the decoder of a session with the choice of the lowest argmax.
* `Session.Reached` — the session after some tokens.
* `Session.draftRows`, `Session.lastRow` — the rows judged by a step, and the row left by it.

## Main results

* `Session.speculativeStep_spec`.
-/

set_option autoImplicit false

namespace NNIS

namespace Session

variable {V : Type} {rt : Pipeline V}

/-- The decoder of a session, choosing the lowest argmax of the logits held. -/
def target (rt : Pipeline V) : Target (Decoder.State (KvRow V) (List F32)) UInt32 :=
  rt.decoder.target lowestArgmax

theorem position_eq_of_advance {tokens : List UInt32} {s₀ s : Session rt}
    (h : s.core = (target rt).advance tokens s₀.core) :
    s.position = s₀.position + tokens.length :=
  (congrArg Decoder.State.position h).trans
    (rt.decoder.position_advance lowestArgmax tokens s₀.core)

theorem aligned_of_advance {tokens : List UInt32} {s₀ s : Session rt}
    (h : s.core = (target rt).advance tokens s₀.core) (ha : s₀.Aligned) : s.Aligned := by
  unfold Aligned
  rw [h]
  exact rt.decoder.aligned_advance lowestArgmax ha tokens

/-- The session after some tokens. -/
structure Reached (tokens : List UInt32) (s₀ s : Session rt) : Prop where
  since : Stream.Since (fun _ => True) s₀.stream s.stream
  heads_eq : s.heads = s₀.heads + tokens.length
  core_eq : s.core = (target rt).advance tokens s₀.core

namespace Reached

variable {tokens : List UInt32} {token : UInt32} {s₀ s₁ s : Session rt}

theorem refl (s : Session rt) : Reached [] s s := ⟨Stream.Since.refl _ _, rfl, rfl⟩

theorem decoded (h : Reached tokens s₀ s₁) (hs : Decoded token s₁ s) :
    Reached (tokens ++ [token]) s₀ s where
  since := h.since.trans hs.since
  heads_eq := by
    rw [hs.heads_eq, h.heads_eq, List.length_append, List.length_singleton, Nat.add_assoc]
  core_eq := by
    rw [hs.core_eq, h.core_eq, Target.advance_concat]
    rfl

theorem position_eq (h : Reached tokens s₀ s) : s.position = s₀.position + tokens.length :=
  position_eq_of_advance h.core_eq

theorem aligned (h : Reached tokens s₀ s) (ha : s₀.Aligned) : s.Aligned :=
  aligned_of_advance h.core_eq ha

theorem rows_prefix (h : Reached tokens s₀ s) (l : ℕ) : s₀.cache.rows l <+: s.cache.rows l := by
  obtain ⟨new, hnew, -⟩ := rt.decoder.rows_advance lowestArgmax tokens s₀.core l
  refine ⟨new, ?_⟩
  show _ = s.core.rows l
  rw [h.core_eq]
  exact hnew.symm

end Reached

/-! ### Judging -/

/-- Rows that are judged are judged by their lowest argmaxes, which are tokens of the vocabulary. -/
theorem judgeGreedy_ok {vocabSize : ℕ} {draft : SpeculativeDraftV1}
    {schedule : ConfidenceScheduleV1} {rows : List (List F32)} {outcome : SpeculativeVerificationV1}
    (hlen : ∀ row ∈ rows, row.length = vocabSize)
    (h : judgeGreedy vocabSize draft schedule rows.flatten = .ok outcome) :
    (rows.map lowestArgmax).length = schedule.scheduledLen draft + 1 ∧
      (∀ token ∈ rows.map lowestArgmax, token.toNat < vocabSize) ∧
        outcome = .ofTargets draft schedule (rows.map lowestArgmax) := by
  unfold judgeGreedy at h
  split_ifs at h with hlt
  cases hnew : CpuGreedySpeculativeVerifierV1.new vocabSize hlt with
  | error e =>
    rw [hnew] at h
    cases h
  | ok verifier =>
    have hsize : verifier.vocabSize = vocabSize := by
      unfold CpuGreedySpeculativeVerifierV1.new at hnew
      split_ifs at hnew
      cases hnew
      rfl
    rw [hnew] at h
    change (verifier.verify draft schedule rows.flatten).mapError _ = _ at h
    cases hverify : verifier.verify draft schedule rows.flatten with
    | error e =>
      rw [hverify] at h
      cases h
    | ok outcome' =>
      rw [hverify] at h
      cases h
      obtain ⟨targets, hlength, hvocab, htargets, rfl⟩ :=
        CpuGreedySpeculativeVerifierV1.verify_ok hverify
      rw [chunksExact_flatten verifier.vocabSize_pos rows (hsize.symm ▸ hlen)] at htargets
      subst htargets
      exact ⟨hlength, hsize ▸ hvocab, rfl⟩

/-- Finite rows are judged by their lowest argmaxes. -/
theorem judgeGreedy_eq {vocabSize : ℕ} {draft : SpeculativeDraftV1}
    {schedule : ConfidenceScheduleV1} {rows : List (List F32)} (hpos : 0 < vocabSize)
    (hlt : vocabSize < 2 ^ 32) (htokens : ∀ token ∈ draft.tokens, token.toNat < vocabSize)
    (hrows : rows.length = schedule.scheduledLen draft + 1)
    (hlen : ∀ row ∈ rows, row.length = vocabSize)
    (hfin : ∀ row ∈ rows, ∀ x ∈ row, x.isFinite = true) :
    judgeGreedy vocabSize draft schedule rows.flatten =
      .ok (.ofTargets draft schedule (rows.map lowestArgmax)) := by
  have hnew : CpuGreedySpeculativeVerifierV1.new vocabSize hlt = .ok ⟨vocabSize, hpos, hlt⟩ :=
    dif_neg hpos.ne'
  rw [judgeGreedy, dif_pos hlt, hnew]
  show (CpuGreedySpeculativeVerifierV1.verify ⟨vocabSize, hpos, hlt⟩ draft schedule
    rows.flatten).mapError _ = _
  rw [CpuGreedySpeculativeVerifierV1.verify_eq _ draft schedule rows htokens hrows hlen hfin]
  rfl

/-! ### The rows of a step -/

/-- The logits before each scheduled token of a draft and after the last one. -/
def draftRows (s : Session rt) (draft : SpeculativeDraftV1) (schedule : ConfidenceScheduleV1) :
    List (List F32) :=
  ((target rt).trace (schedule.scheduled draft) s.core).map Decoder.State.output

/-- The logits held after `heads` launches of the LM head in a step: those of the session, then
those after each scheduled token, and at last those after the emitted tokens. -/
def lastRow (s : Session rt) (draft : SpeculativeDraftV1) (schedule : ConfidenceScheduleV1)
    (heads : ℕ) : List F32 :=
  if heads ≤ schedule.scheduledLen draft then
    ((target rt).advance ((schedule.scheduled draft).take heads) s.core).output
  else
    match judgeGreedy rt.config.vocabSize draft schedule (s.draftRows draft schedule).flatten with
    | .ok verification => ((target rt).advance verification.emittedTokens s.core).output
    | .error _ => s.logits

theorem length_of_mem_draftRows {s : Session rt} {draft : SpeculativeDraftV1}
    {schedule : ConfidenceScheduleV1} {row : List F32} (h : row ∈ s.draftRows draft schedule) :
    row.length = rt.config.vocabSize := by
  obtain ⟨c, hc, rfl⟩ := List.mem_map.1 h
  exact rt.decoder.forall_output_trace lowestArgmax (s := s.core)
    (P := fun row => row.length = rt.config.vocabSize) (fun _ => rt.length_lmHead _) _
      s.length_logits c hc

/-- The lowest argmaxes of the rows of a draft are the choices of the decoder. -/
theorem map_lowestArgmax_draftRows (s : Session rt) (draft : SpeculativeDraftV1)
    (schedule : ConfidenceScheduleV1) : (s.draftRows draft schedule).map lowestArgmax =
      (target rt).choices (schedule.scheduled draft) s.core := by
  rw [Target.choices_eq, draftRows, List.map_map]
  rfl

/-- Teacher forcing returns the rows of the draft, or fails at one of its tokens. -/
theorem teacherForcedLogits_spec (s₀ : Session rt) (draft : SpeculativeDraftV1)
    (schedule : ConfidenceScheduleV1) :
    Fallible.Spec (fun s => s = s₀) (teacherForcedLogits s₀.logits draft schedule)
      (fun rows s => Reached (schedule.scheduled draft) s₀ s ∧
        rows = (s₀.draftRows draft schedule).flatten)
      fun _ s => ∃ before token after s₁, schedule.scheduled draft = before ++ token :: after ∧
        Reached before s₀ s₁ ∧ DecodeFailed token s₁ s := by
  -- The tokens before the rest of the draft have been decoded, and their rows collected.
  let Forced (rest : List UInt32) (rows : List F32) (s : Session rt) : Prop := ∃ before,
    schedule.scheduled draft = before ++ rest ∧ Reached before s₀ s ∧
      rows = (((target rt).trace before s₀.core).map Decoder.State.output).flatten
  refine (Fallible.Spec.foldEach Forced _ _ fun token rest rows =>
    Fallible.Spec.of_forall fun s₁ ⟨before, hdraft, hreached, hrows⟩ => ?_).conseq
      (fun s hs => ⟨[], rfl, hs ▸ Reached.refl s₀, ?_⟩) ?_ fun _ _ hs => hs
  · refine Fallible.Spec.bind ((decodeOne_spec token s₁).conseq (fun _ hs => hs)
      (fun _ _ hs => hs) fun _ s hs => ⟨before, token, rest, s₁, hdraft, hreached, hs⟩)
        fun logits => Fallible.Spec.of_forall fun s₂ ⟨hs₂, hlogits⟩ => ?_
    have hlen : logits.length = s₀.logits.length := by
      rw [hlogits, s₂.length_logits, s₀.length_logits]
    rw [if_neg (not_not.2 hlen)]
    refine Fallible.Spec.pure _ ?_
    rintro s rfl
    have hreached' := hreached.decoded hs₂
    refine ⟨before ++ [token], by rw [hdraft, List.append_assoc, List.singleton_append],
      hreached', ?_⟩
    rw [hrows, Target.trace_concat, List.map_append, List.flatten_append, List.map_singleton,
      List.flatten_singleton, ← hreached'.core_eq, hlogits]
    rfl
  · simp only [Target.trace, List.map_singleton, List.flatten_singleton]
    rfl
  · rintro rows s ⟨before, hdraft, hreached, hrows⟩
    rw [List.append_nil] at hdraft
    rw [draftRows, hdraft]
    exact ⟨hreached, hrows⟩

/-! ### The step -/

/-- The outcome of a step that returns. -/
structure Stepped (s₀ : Session rt) (draft : SpeculativeDraftV1) (schedule : ConfidenceScheduleV1)
    (stats : SpeculativeAcceptanceStatsV1) (verification : SpeculativeVerificationV1)
    (nextStats : SpeculativeAcceptanceStatsV1) (nextLogits : List F32) (s : Session rt) : Prop where
  since : Stream.Since (fun _ => True) s₀.stream s.stream
  judged : judgeGreedy rt.config.vocabSize draft schedule (s₀.draftRows draft schedule).flatten =
    .ok verification
  recorded : recorded stats verification = .ok nextStats
  core_eq : s.core = (target rt).advance verification.emittedTokens s₀.core
  nextLogits_eq : nextLogits = s.logits

/-- The outcome of a step that fails. -/
structure StepFailed (s₀ : Session rt) (draft : SpeculativeDraftV1)
    (schedule : ConfidenceScheduleV1) (stats : SpeculativeAcceptanceStatsV1) (s : Session rt) :
    Prop where
  since : Stream.Since (fun _ => True) s₀.stream s.stream
  rows_prefix : ∀ l, s₀.cache.rows l <+: s.cache.rows l
  aligned : s.Aligned ∨ s.stream.Refused midToken
  logits_eq : s.logits = s₀.lastRow draft schedule (s.heads - s₀.heads)
  /-- A call has been refused, or the rows are rejected, or the counters. -/
  reason : ¬ s.stream.Accepting ∨ ∀ verification, judgeGreedy rt.config.vocabSize draft schedule
    (s₀.draftRows draft schedule).flatten = .ok verification →
      ∀ nextStats, Session.recorded stats verification ≠ .ok nextStats

variable {s₀ : Session rt} {draft : SpeculativeDraftV1} {schedule : ConfidenceScheduleV1}
  {stats : SpeculativeAcceptanceStatsV1}

theorem lastRow_of_le {heads : ℕ} (h : heads ≤ schedule.scheduledLen draft) :
    s₀.lastRow draft schedule heads =
      ((target rt).advance ((schedule.scheduled draft).take heads) s₀.core).output :=
  if_pos h

/-- A step that fails while the draft is forced. -/
theorem stepFailed_of_forced (ha : s₀.Aligned)
    (htokens : ∀ token ∈ draft.tokens, token.toNat < rt.config.vocabSize)
    (hcapacity : s₀.position + schedule.scheduledLen draft + 1 ≤ rt.config.maxPositionEmbeddings)
    {before after : List UInt32} {token : UInt32} {s₁ s : Session rt}
    (hdraft : schedule.scheduled draft = before ++ token :: after) (hs₁ : Reached before s₀ s₁)
    (hs : DecodeFailed token s₁ s) : StepFailed s₀ draft schedule stats s := by
  have hlen : before.length + 1 ≤ schedule.scheduledLen draft := by
    rw [← schedule.length_scheduled draft, hdraft, List.length_append, List.length_cons]
    omega
  have hmem : token ∈ schedule.scheduled draft :=
    hdraft ▸ List.mem_append_right _ List.mem_cons_self
  have hposition : s₁.position < rt.config.maxPositionEmbeddings := by
    rw [hs₁.position_eq]
    omega
  refine ⟨hs₁.since.trans hs.since, fun l => (hs₁.rows_prefix l).trans (hs.rows_prefix l),
    hs.aligned (hs₁.aligned ha), ?_, Or.inl (hs.not_accepting (hs₁.aligned ha)
      (htokens token (List.mem_of_mem_take hmem)) hposition)⟩
  rcases hs.logits with ⟨hheads, hlogits⟩ | ⟨hheads, hlogits⟩
  · have hcount : s.heads - s₀.heads = before.length := by
      rw [hheads, hs₁.heads_eq]
      omega
    rw [hcount, lastRow_of_le (by omega), hdraft, List.take_left, ← hs₁.core_eq, hlogits]
    rfl
  · have hcount : s.heads - s₀.heads = (before ++ [token]).length := by
      rw [hheads, hs₁.heads_eq, List.length_append, List.length_singleton]
      omega
    have hsplit : schedule.scheduled draft = (before ++ [token]) ++ after := by
      rw [hdraft, List.append_assoc, List.singleton_append]
    rw [hcount, lastRow_of_le (by rw [List.length_append, List.length_singleton]; exact hlen),
      hsplit, List.take_left, Target.advance_concat, ← hs₁.core_eq, hlogits]
    rfl

/-- A step that fails between the draft and the emitted token. -/
theorem stepFailed_of_reached (ha : s₀.Aligned) {s : Session rt}
    (hs : Reached (schedule.scheduled draft) s₀ s)
    (reason : ¬ s.stream.Accepting ∨ ∀ verification, judgeGreedy rt.config.vocabSize draft schedule
      (s₀.draftRows draft schedule).flatten = .ok verification →
        ∀ nextStats, Session.recorded stats verification ≠ .ok nextStats) :
    StepFailed s₀ draft schedule stats s := by
  refine ⟨hs.since, hs.rows_prefix, Or.inl (hs.aligned ha), ?_, reason⟩
  have hcount : s.heads - s₀.heads = schedule.scheduledLen draft := by
    rw [hs.heads_eq, schedule.length_scheduled]
    omega
  rw [hcount, lastRow_of_le le_rfl, ← schedule.length_scheduled draft, List.take_length,
    ← hs.core_eq]
  rfl

/-- The session of a step once it is back at the accepted prefix. -/
structure Rewound (s₀ : Session rt) (draft : SpeculativeDraftV1) (schedule : ConfidenceScheduleV1)
    (accepted : ℕ) (s : Session rt) : Prop where
  since : Stream.Since (fun _ => True) s₀.stream s.stream
  heads_eq : s.heads = s₀.heads + schedule.scheduledLen draft
  sameRows : s.core.SameRows
    ((target rt).advance ((schedule.scheduled draft).take accepted) s₀.core)
  logits_eq : s.logits = s₀.lastRow draft schedule (schedule.scheduledLen draft)

/-- An aligned session that has been advanced by a draft is rewound to the accepted prefix. -/
theorem Reached.rewound (ha : s₀.Aligned) {s₁ s : Session rt}
    (hs₁ : Reached (schedule.scheduled draft) s₀ s₁) {accepted : ℕ}
    (haccepted : accepted ≤ schedule.scheduledLen draft)
    (hsince : Stream.Since noHead s₁.stream s.stream)
    (hcore : s.core = s₁.core.cut (s₀.position + accepted)) :
    Rewound s₀ draft schedule accepted s where
  since := hs₁.since.trans (hsince.mono fun _ _ => trivial)
  heads_eq := by
    rw [heads_eq_of_since hsince, hs₁.heads_eq, schedule.length_scheduled]
  sameRows := by
    rw [hcore, hs₁.core_eq]
    exact rt.decoder.cut_advance lowestArgmax ha (fun l hl => s₀.rows_of_le hl)
      (schedule.scheduled draft) (haccepted.trans (schedule.length_scheduled draft).ge)
  logits_eq := by
    have hlogits : s.logits = s₁.core.output := congrArg Decoder.State.output hcore
    rw [hlogits, hs₁.core_eq, lastRow_of_le le_rfl, ← schedule.length_scheduled draft,
      List.take_length]

namespace Rewound

variable {accepted : ℕ} {s₁ s : Session rt}

theorem aligned (h : Rewound s₀ draft schedule accepted s) (ha : s₀.Aligned) : s.Aligned := by
  have haligned := rt.decoder.aligned_advance lowestArgmax ha
    ((schedule.scheduled draft).take accepted)
  intro l hl
  rw [h.sameRows.1, h.sameRows.2]
  exact haligned l hl

theorem rows_prefix (h : Rewound s₀ draft schedule accepted s) (l : ℕ) :
    s₀.cache.rows l <+: s.cache.rows l := by
  obtain ⟨new, hnew, -⟩ := rt.decoder.rows_advance lowestArgmax
    ((schedule.scheduled draft).take accepted) s₀.core l
  have hrows : s.cache.rows l = _ := congrFun h.sameRows.2 l
  rw [hrows]
  exact ⟨new, hnew.symm⟩

theorem position_eq (h : Rewound s₀ draft schedule accepted s)
    (haccepted : accepted ≤ schedule.scheduledLen draft) :
    s.position = s₀.position + accepted := by
  have hposition : s.position = _ := h.sameRows.1
  have hadvance := rt.decoder.position_advance lowestArgmax
    ((schedule.scheduled draft).take accepted) s₀.core
  rw [List.length_take, schedule.length_scheduled, Nat.min_eq_left haccepted] at hadvance
  exact hposition.trans hadvance

/-- The step of the decoder from the accepted prefix does not see the logits left over. -/
theorem step_eq (h : Rewound s₀ draft schedule accepted s) (token : UInt32) :
    rt.decoder.step token s.core =
      (target rt).advance ((schedule.scheduled draft).take accepted ++ [token]) s₀.core := by
  rw [rt.decoder.step_congr h.sameRows, Target.advance_concat]
  rfl

/-- A step that fails at the emitted token. -/
theorem stepFailed {verification : SpeculativeVerificationV1} {token : UInt32}
    (h : Rewound s₀ draft schedule verification.accepted s₁) (ha : s₀.Aligned)
    (hcapacity : s₀.position + schedule.scheduledLen draft + 1 ≤ rt.config.maxPositionEmbeddings)
    (hjudged : judgeGreedy rt.config.vocabSize draft schedule
      (s₀.draftRows draft schedule).flatten = .ok verification)
    (haccepted : verification.accepted ≤ schedule.scheduledLen draft)
    (hemitted : verification.emittedTokens =
      (schedule.scheduled draft).take verification.accepted ++ [token])
    (htoken : token.toNat < rt.config.vocabSize) (hs : DecodeFailed token s₁ s) :
    StepFailed s₀ draft schedule stats s := by
  have hposition : s₁.position < rt.config.maxPositionEmbeddings := by
    rw [h.position_eq haccepted]
    omega
  refine ⟨h.since.trans hs.since, fun l => (h.rows_prefix l).trans (hs.rows_prefix l),
    hs.aligned (h.aligned ha), ?_, Or.inl (hs.not_accepting (h.aligned ha) htoken hposition)⟩
  rcases hs.logits with ⟨hheads, hlogits⟩ | ⟨hheads, hlogits⟩
  · have hcount : s.heads - s₀.heads = schedule.scheduledLen draft := by
      rw [hheads, h.heads_eq]
      omega
    rw [hcount, hlogits, h.logits_eq]
  · have hcount : s.heads - s₀.heads = schedule.scheduledLen draft + 1 := by
      rw [hheads, h.heads_eq]
      omega
    rw [hcount, lastRow, if_neg (by omega), hjudged, hlogits, h.step_eq]
    exact congrArg (fun tokens => ((target rt).advance tokens s₀.core).output) hemitted.symm

end Rewound

/-- A step of an aligned session for a draft of the vocabulary that fits: it advances the session by
the emitted tokens, or fails. -/
theorem speculativeStep_spec (s₀ : Session rt) (draft : SpeculativeDraftV1)
    (schedule : ConfidenceScheduleV1) (stats : SpeculativeAcceptanceStatsV1) (ha : s₀.Aligned)
    (htokens : ∀ token ∈ draft.tokens, token.toNat < rt.config.vocabSize)
    (hcapacity : s₀.position + schedule.scheduledLen draft + 1 ≤
      rt.config.maxPositionEmbeddings) :
    Fallible.Spec (fun s => s = s₀) (speculativeStep s₀.position s₀.logits draft schedule stats)
      (fun r => Stepped s₀ draft schedule stats r.1 r.2.1 r.2.2)
      fun _ => StepFailed s₀ draft schedule stats := by
  refine Fallible.Spec.bind ((s₀.teacherForcedLogits_spec draft schedule).conseq (fun _ hs => hs)
    (fun _ _ hs => hs) fun _ s ⟨_, _, _, _, hdraft, hs₁, hs⟩ =>
      stepFailed_of_forced ha htokens hcapacity hdraft hs₁ hs) fun rows =>
        Fallible.Spec.of_forall fun s₁ ⟨hs₁, hrows⟩ => ?_
  subst hrows
  refine Fallible.Spec.bind (R := fun verification s => s = s₁ ∧
    judgeGreedy rt.config.vocabSize draft schedule (s₀.draftRows draft schedule).flatten =
      .ok verification) (Fallible.Spec.ofExcept (fun v hv s hs => ⟨hs, hv⟩) fun e he s hs => ?_)
    fun verification => Fallible.Spec.of_forall fun s ⟨hs, hjudged⟩ => ?_
  · refine hs ▸ stepFailed_of_reached ha hs₁ (Or.inr fun v hv => ?_)
    rw [he] at hv
    cases hv
  subst hs
  obtain ⟨hlen, hvocab, htargets⟩ := judgeGreedy_ok (fun _ => length_of_mem_draftRows) hjudged
  obtain ⟨token, hmem, hemitted⟩ := SpeculativeVerificationV1.exists_emittedTokens_eq hlen
  have haccepted := SpeculativeVerificationV1.accepted_ofTargets_le draft schedule
    ((s₀.draftRows draft schedule).map lowestArgmax)
  rw [← htargets] at hemitted haccepted
  have hlast : verification.emittedTokens.getLast? = some token := by
    rw [hemitted, List.getLast?_append, List.getLast?_singleton, Option.some_or]
  refine Fallible.Spec.bind (R := fun nextStats s' => s' = s ∧
    Session.recorded stats verification = .ok nextStats)
    (Fallible.Spec.ofExcept (fun v hv s' hs => ⟨hs, hv⟩) fun e he s' hs => ?_)
    fun nextStats => Fallible.Spec.of_forall fun s' ⟨hs', hrecorded⟩ => ?_
  · refine hs ▸ stepFailed_of_reached ha hs₁ (Or.inr fun v hv next hnext => ?_)
    rw [hjudged] at hv
    cases hv
    rw [he] at hnext
    cases hnext
  rw [hs']
  refine Fallible.Spec.bind (R := fun _ => Rewound s₀ draft schedule verification.accepted)
    ((rewindTo_spec (s₀.position + verification.accepted) s).conseq (fun _ hs => hs)
      (fun _ s₂ ⟨hsince, hcore, _⟩ => hs₁.rewound ha haccepted hsince hcore)
        fun _ s₂ ⟨hs₂, hreason⟩ => ?_) fun _ => Fallible.Spec.of_forall fun s₂ hs₂ => ?_
  · refine stepFailed_of_reached ha ⟨hs₁.since.trans (hs₂.since.mono fun _ _ => trivial),
      (heads_eq_of_since hs₂.since).trans hs₁.heads_eq, hs₂.core_eq.trans hs₁.core_eq⟩ (Or.inl ?_)
    rcases hreason with hr | ⟨l, hl, hshort⟩
    · exact hr.2
    · rw [(hs₁.aligned ha).rowCount_eq hl, hs₁.position_eq, schedule.length_scheduled] at hshort
      omega
  rw [hlast]
  refine Fallible.Spec.bind ((decodeOne_spec token s₂).conseq (fun _ hs => hs) (fun _ _ hs => hs)
    fun _ s₃ hs₃ => hs₂.stepFailed ha hcapacity hjudged haccepted hemitted
      (hvocab token hmem) hs₃) fun nextLogits => Fallible.Spec.pure _ ?_
  rintro s₃ ⟨hs₃, hlogits⟩
  refine ⟨hs₂.since.trans hs₃.since, hjudged, hrecorded, ?_, hlogits⟩
  rw [hs₃.core_eq, hs₂.step_eq, hemitted]

/-- A rewound session has the position and the rows it had before a failed step, and the last row
written by the step. -/
theorem StepFailed.core_cut {s s₁ : Session rt} (h : StepFailed s draft schedule stats s₁)
    (ha : s.Aligned) : s₁.core.cut s.position =
      ⟨s.position, s.cache.rows, s.lastRow draft schedule (s₁.heads - s.heads)⟩ := by
  refine Decoder.State.ext rfl (funext fun l => ?_) h.logits_eq
  show (s₁.cache.rows l).take s.position = s.cache.rows l
  by_cases hl : l < rt.config.numHiddenLayers
  · have hlen : (s.cache.rows l).length = s.position := ha l hl
    rw [← hlen]
    exact (List.prefix_iff_eq_take.1 (h.rows_prefix l)).symm
  · rw [s₁.rows_of_le (Nat.not_lt.1 hl), s.rows_of_le (Nat.not_lt.1 hl), List.take_nil]

/-! ### Verification -/

theorem maxPositionEmbeddings_lt (config : ModelConfig) :
    config.maxPositionEmbeddings < wordLimit := by
  refine lt_of_le_of_lt ?_ config.cache_fits
  have hheads : 0 < config.numHiddenLayers * config.numKeyValueHeads :=
    Nat.mul_pos config.numHiddenLayers_pos config.numKeyValueHeads_pos
  calc config.maxPositionEmbeddings
      ≤ config.numHiddenLayers * config.numKeyValueHeads * config.maxPositionEmbeddings :=
        Nat.le_mul_of_pos_left _ hheads
    _ ≤ _ := Nat.le_mul_of_pos_right _ config.headDim_pos

theorem forM_validateToken_eq_ok_iff {tokens : List UInt32} :
    tokens.forM (validateToken rt) = .ok ⟨⟩ ↔
      ∀ token ∈ tokens, token.toNat < rt.config.vocabSize := by
  induction tokens with
  | nil => exact iff_of_true rfl fun _ ht => absurd ht List.not_mem_nil
  | cons token tokens ih =>
    rw [List.forall_mem_cons, ← ih, ← validateToken_eq_ok_iff]
    show (validateToken rt token >>= fun _ => tokens.forM (validateToken rt)) = _ ↔ _
    cases validateToken rt token with
    | error e => exact iff_of_false (by rintro ⟨⟩) (by rintro ⟨⟨⟩, -⟩)
    | ok u => exact ⟨fun he => ⟨rfl, he⟩, fun he => he.2⟩

/-- A draft is accepted for verification in a prefilled session when its tokens are in the
vocabulary and the step fits the capacity. -/
theorem validateDraft_eq_ok_iff :
    validateDraft s₀ draft schedule = .ok ⟨⟩ ↔ 0 < s₀.position ∧
      (∀ token ∈ draft.tokens, token.toNat < rt.config.vocabSize) ∧
        s₀.position + schedule.scheduledLen draft + 1 ≤ rt.config.maxPositionEmbeddings := by
  have hlimit := maxPositionEmbeddings_lt rt.config
  rw [← forM_validateToken_eq_ok_iff]
  unfold validateDraft
  split_ifs with hzero
  · exact iff_of_false (by rintro ⟨⟩) fun h => absurd hzero h.1.ne'
  · show (draft.tokens.forM (validateToken rt) >>= fun _ => _) = _ ↔ _
    cases draft.tokens.forM (validateToken rt) with
    | error e => exact iff_of_false (by rintro ⟨⟩) (by rintro ⟨-, ⟨⟩, -⟩)
    | ok u =>
      show (orInvalid _ (checkedAdd s₀.position (schedule.scheduledLen draft) >>= fun last =>
        checkedAdd last 1) >>= fun required => _) = _ ↔ _
      by_cases hfit : s₀.position + schedule.scheduledLen draft + 1 < wordLimit
      · rw [checkedAdd_of_lt (by omega)]
        show (orInvalid _ (checkedAdd _ 1) >>= fun required => _) = _ ↔ _
        rw [checkedAdd_of_lt hfit]
        show (if rt.config.maxPositionEmbeddings < _ then _ else _) = _ ↔ _
        split_ifs with hlt
        · exact iff_of_false (by rintro ⟨⟩) fun h => absurd h.2.2 (Nat.not_le.2 hlt)
        · exact iff_of_true rfl ⟨Nat.pos_of_ne_zero hzero, rfl, Nat.not_lt.1 hlt⟩
      · refine iff_of_false ?_ fun h => hfit (h.2.2.trans_lt hlimit)
        cases hadd : checkedAdd s₀.position (schedule.scheduledLen draft) >>= fun last =>
            checkedAdd last 1 with
        | none => rintro ⟨⟩
        | some required =>
          obtain ⟨last, hlast, hrequired⟩ := Option.bind_eq_some_iff.1 hadd
          obtain ⟨rfl, -⟩ := checkedAdd_eq_some_iff.1 hlast
          exact absurd (checkedAdd_eq_some_iff.1 hrequired).2 (by
            rw [← (checkedAdd_eq_some_iff.1 hrequired).1]
            exact hfit)

/-- A read of the current logits waits for outstanding work first. -/
theorem readCurrentLogits_spec (s₀ : Session rt) :
    Fallible.Spec (fun s => s = s₀) readCurrentLogits
      (fun logits s => logits = s₀.logits ∧ Called noHead s₀ s)
      fun _ s => Called noHead s₀ s ∧ ¬ s.stream.Accepting := by
  have hnoHead (ok : Bool) : noHead (.synchronize .verify, ok) := by
    intro he
    cases he
  refine Fallible.Spec.bind ((s₀.call_spec _ (fun _ => true) hnoHead rfl).conseq
    (fun _ hs => hs) (fun _ _ hs => hs) fun _ _ ⟨hs, hr⟩ => ⟨hs, hr.2⟩) fun _ =>
      Fallible.Spec.of_forall fun s₁ hs₁ => (s₁.readLogits_spec).conseq (fun _ hs => hs) ?_ ?_
  · rintro logits s ⟨hlogits, hs⟩
    exact ⟨hlogits.trans hs₁.logits_eq, hs₁.trans hs⟩
  · rintro - s ⟨hs, hr⟩
    exact ⟨hs₁.trans hs, hr⟩

/-- The outcome of a verification that fails: it is rejected before any work, or the current logits
cannot be read, or the step fails and is rewound to the start, or the rewind is refused too. -/
inductive VerifyFailed (s₀ : Session rt) (draft : SpeculativeDraftV1)
    (schedule : ConfidenceScheduleV1) (stats : SpeculativeAcceptanceStatsV1) (s : Session rt) :
    Prop
  | rejected (session : s = s₀) (invalid : validateDraft s₀ draft schedule ≠ .ok ⟨⟩)
  | unread (called : Called noHead s₀ s) (refused : ¬ s.stream.Accepting)
  | rewound (s₁ : Session rt) (failed : StepFailed s₀ draft schedule stats s₁)
      (since : Stream.Since noHead s₁.stream s.stream)
      (core_eq : s.core = s₁.core.cut s₀.position)
  | lost (s₁ : Session rt) (failed : StepFailed s₀ draft schedule stats s₁)
      (called : Called noHead s₁ s) (refused : s.Refused rewindSite)

/-- A draft that fails its checks is rejected before any work. -/
theorem run_verifyGreedyDraft_of_invalid (stats : SpeculativeAcceptanceStatsV1)
    (h : validateDraft s₀ draft schedule ≠ .ok ⟨⟩) :
    ∃ e, (verifyGreedyDraft draft schedule stats).run s₀ = (.error e, s₀) := by
  cases hvalid : validateDraft s₀ draft schedule with
  | ok u => exact absurd hvalid h
  | error e =>
    refine ⟨e, ?_⟩
    rw [verifyGreedyDraft, Fallible.run_bind_ok (Fallible.run_get s₀), hvalid]
    exact Fallible.run_bind_error (Fallible.run_ofExcept _ s₀) _

theorem Called.stepped {kind : CallRecord → Prop} {s₁ s : Session rt}
    {verification : SpeculativeVerificationV1} {nextStats : SpeculativeAcceptanceStatsV1}
    {nextLogits : List F32} (hs : Called kind s₀ s₁)
    (h : Stepped s₁ draft schedule stats verification nextStats nextLogits s) :
    Stepped s₀ draft schedule stats verification nextStats nextLogits s := by
  obtain ⟨stream, rfl, hs⟩ := hs
  exact ⟨(hs.mono fun _ _ => trivial).trans h.since, h.judged, h.recorded, h.core_eq,
    h.nextLogits_eq⟩

theorem Called.stepFailed {s₁ s : Session rt} (hs : Called noHead s₀ s₁)
    (h : StepFailed s₁ draft schedule stats s) : StepFailed s₀ draft schedule stats s := by
  have hheads : s₁.heads = s₀.heads := heads_eq_of_since hs.since
  obtain ⟨stream, rfl, hs⟩ := hs
  refine ⟨(hs.mono fun _ _ => trivial).trans h.since, h.rows_prefix, h.aligned, ?_, h.reason⟩
  rw [h.logits_eq, hheads]
  rfl

/-- A verification in an aligned session advances it by the emitted tokens, or fails in one of four
ways. -/
theorem verifyGreedyDraft_spec (s₀ : Session rt) (draft : SpeculativeDraftV1)
    (schedule : ConfidenceScheduleV1) (stats : SpeculativeAcceptanceStatsV1) (ha : s₀.Aligned) :
    Fallible.Spec (fun s => s = s₀) (verifyGreedyDraft draft schedule stats)
      (fun r s => validateDraft s₀ draft schedule = .ok ⟨⟩ ∧ r.1.startPosition = s₀.position ∧
        Stepped s₀ draft schedule stats r.1.verification r.2 r.1.nextLogits s)
      fun _ => VerifyFailed s₀ draft schedule stats := by
  refine Fallible.Spec.bind (R := fun s' s => s' = s₀ ∧ s = s₀)
    (Fallible.Spec.get fun s hs => ⟨hs, hs⟩) fun s' => Fallible.Spec.of_forall
      fun s₁ ⟨hs', hs₁⟩ => ?_
  rw [hs', hs₁]
  refine Fallible.Spec.bind (R := fun _ s => s = s₀ ∧ validateDraft s₀ draft schedule = .ok ⟨⟩)
    (Fallible.Spec.ofExcept (fun u hu s hs => ⟨hs, hu⟩) fun e he s hs => .rejected hs ?_)
    fun _ => Fallible.Spec.of_forall fun s₁ ⟨hs₁, hvalid⟩ => ?_
  · rw [he]
    exact fun h => by cases h
  rw [hs₁]
  obtain ⟨-, htokens, hcapacity⟩ := validateDraft_eq_ok_iff.1 hvalid
  refine Fallible.Spec.bind ((s₀.readCurrentLogits_spec).conseq (fun _ hs => hs)
    (fun _ _ hs => hs) fun _ s ⟨hs, hr⟩ => .unread hs hr) fun current =>
      Fallible.Spec.of_forall fun s₁ ⟨hcurrent, hs₁⟩ => ?_
  rw [hcurrent, ← hs₁.logits_eq, ← hs₁.position_eq]
  have hstep := s₁.speculativeStep_spec draft schedule stats (hs₁.aligned ha) htokens
    (by rw [hs₁.position_eq]; exact hcapacity)
  refine Fallible.Spec.bind (hstep.attempt (Q := fun r s => match r with
    | .ok r => Stepped s₁ draft schedule stats r.1 r.2.1 r.2.2 s
    | .error _ => StepFailed s₁ draft schedule stats s)) fun r =>
      Fallible.Spec.of_forall fun s₂ hs₂ => ?_
  cases r with
  | ok r =>
    refine Fallible.Spec.pure _ ?_
    rintro s rfl
    exact ⟨hvalid, rfl, hs₁.stepped hs₂⟩
  | error e =>
    have hfailed := hs₁.stepFailed hs₂
    refine Fallible.Spec.bind (R := fun r s => VerifyFailed s₀ draft schedule stats s)
      (Fallible.Spec.attempt ((rewindTo_spec s₁.position s₂).conseq (fun _ hs => hs)
        (fun _ s ⟨hsince, hcore, _⟩ => ?_) fun _ s ⟨hs, hreason⟩ => ?_)) fun r => ?_
    · exact .rewound s₂ hfailed hsince (hs₁.position_eq ▸ hcore)
    · rcases hreason with hr | ⟨l, hl, hshort⟩
      · exact .lost s₂ hfailed hs hr
      · have hle := (hfailed.rows_prefix l).length_le
        rw [KvCache.length_rows, KvCache.length_rows, ha.rowCount_eq hl] at hle
        rw [hs₁.position_eq] at hshort
        omega
    · cases r with
      | ok _ => exact Fallible.Spec.fail _ fun _ hs => hs
      | error _ => exact Fallible.Spec.fail _ fun _ hs => hs

end Session

end NNIS
