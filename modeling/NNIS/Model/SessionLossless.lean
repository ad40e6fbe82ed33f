import NNIS.Model.SessionRuns

/-!
# Speculative verification and greedy decoding

A verification emits what plain greedy decoding emits from the session, and leaves the session as
the greedy decoding leaves it, exactly when the session is aligned. Misaligned sessions exist: a
decode that fails in the middle of a token leaves a row behind that the rewind of a later
verification does not know of.

## Main definitions

* `Session.greedyDecode` — plain greedy decoding, by `decodeOne`.
* `Session.FiniteRows`, `Session.Lossless`, `Session.verifyDrafts`.

## Main results

* `InferenceSession.lossless_iff_aligned`.
-/

set_option autoImplicit false

namespace NNIS

namespace Session

variable {V : Type} {rt : Pipeline V}

/-- Plain greedy decoding of some tokens: the lowest argmax of the logits held is decoded. -/
def greedyDecode : ℕ → Fallible (Session rt) NnisError (List UInt32)
  | 0 => pure []
  | n + 1 => do
    let s ← Fallible.get
    let token := lowestArgmax s.logits
    let _ ← decodeOne token
    let rest ← greedyDecode n
    return token :: rest

/-- Successive verifications of drafts, with the tokens they emit. -/
def verifyDrafts : List (SpeculativeDraftV1 × ConfidenceScheduleV1) →
    SpeculativeAcceptanceStatsV1 → Fallible (Session rt) NnisError (List UInt32)
  | [], _ => pure []
  | (draft, schedule) :: drafts, stats => do
    let (step, nextStats) ← verifyGreedyDraft draft schedule stats
    let rest ← verifyDrafts drafts nextStats
    return step.verification.emittedTokens ++ rest

/-- A verification returns what greedy decoding returns, for the longest agreeing part of the draft
and one more token, and both leave the same position, rows and logits. -/
structure LosslessStep (s : Session rt) (draft : SpeculativeDraftV1)
    (schedule : ConfidenceScheduleV1) (verification : SpeculativeVerificationV1)
    (verified plain : Session rt) : Prop where
  decoded : (greedyDecode (verification.accepted + 1)).run s =
    (.ok verification.emittedTokens, plain)
  accepted_le : verification.accepted ≤ schedule.scheduledLen draft
  agrees : draft.tokens.take verification.accepted =
    verification.emittedTokens.take verification.accepted
  longest : verification.accepted = schedule.scheduledLen draft ∨
    draft.tokens[verification.accepted]? ≠
      verification.emittedTokens[verification.accepted]?
  core_eq : verified.core = plain.core

/-- The verification of a draft is lossless. -/
def Lossless (s : Session rt) (draft : SpeculativeDraftV1) (schedule : ConfidenceScheduleV1)
    (stats : SpeculativeAcceptanceStatsV1) : Prop :=
  ∃ step nextStats verified plain,
    (verifyGreedyDraft draft schedule stats).run s = (.ok (step, nextStats), verified) ∧
      LosslessStep s draft schedule step.verification verified plain

/-! ### Greedy decoding -/

/-- A token of the vocabulary that fits is decoded when every call is accepted. -/
theorem decodeOne_of_accepting {token : UInt32} {s : Session rt} (ha : s.Aligned)
    (hacc : s.stream.Accepting) (htoken : token.toNat < rt.config.vocabSize)
    (hposition : s.position < rt.config.maxPositionEmbeddings) :
    ∃ logits s', (decodeOne token).run s = (.ok logits, s') ∧ Decoded token s s' := by
  have hpost := decodeOne_spec token s s rfl
  rcases hrun : (decodeOne token).run s with ⟨e | logits, s'⟩
  · rw [hrun] at hpost
    have hfailed : DecodeFailed token s s' := hpost
    exact absurd (hfailed.since.accepting hacc) (hfailed.not_accepting ha htoken hposition)
  · rw [hrun] at hpost
    exact ⟨logits, s', rfl, hpost.1⟩

/-- Greedy decoding that fits yields the greedy tokens of the decoder, if they are tokens of the
vocabulary. -/
theorem greedyDecode_of_accepting (n : ℕ) {s : Session rt} (ha : s.Aligned)
    (hacc : s.stream.Accepting)
    (htokens : ∀ token ∈ (target rt).greedy n s.core, token.toNat < rt.config.vocabSize)
    (hcapacity : s.position + n ≤ rt.config.maxPositionEmbeddings) :
    ∃ s', (greedyDecode n).run s = (.ok ((target rt).greedy n s.core), s') ∧
      s'.core = (target rt).advance ((target rt).greedy n s.core) s.core := by
  induction n generalizing s with
  | zero => exact ⟨s, rfl, rfl⟩
  | succ n ih =>
    have hgreedy : (target rt).greedy (n + 1) s.core = lowestArgmax s.logits ::
        (target rt).greedy n ((target rt).step (lowestArgmax s.logits) s.core) := rfl
    rw [hgreedy, List.forall_mem_cons] at htokens
    obtain ⟨logits, s₁, hrun, hs₁⟩ := decodeOne_of_accepting ha hacc htokens.1 (by omega)
    have hcore : s₁.core = (target rt).step (lowestArgmax s.logits) s.core := hs₁.core_eq
    have hposition : s₁.position = s.position + 1 := congrArg Decoder.State.position hcore
    rw [← hcore] at htokens
    obtain ⟨s', hrest, hs'⟩ := ih (hs₁.aligned ha) (hs₁.since.accepting hacc) htokens.2 (by omega)
    refine ⟨s', ?_, ?_⟩
    · rw [greedyDecode, Fallible.run_bind_ok (Fallible.run_get s), Fallible.run_bind_ok hrun,
        Fallible.run_bind_ok hrest, Fallible.run_pure, hcore]
      rfl
    · rw [hs', hcore]
      rfl

/-- Greedy decoding that returns has added one row for each of its tokens to every layer. -/
theorem greedyDecode_rows (n : ℕ) (s₀ : Session rt) :
    Fallible.Spec (fun s => s = s₀) (greedyDecode n)
      (fun _ s => ∀ l < rt.config.numHiddenLayers,
        (s.cache.rows l).length = (s₀.cache.rows l).length + n) fun _ _ => True := by
  induction n generalizing s₀ with
  | zero => exact Fallible.Spec.pure _ fun s hs _ _ => hs ▸ rfl
  | succ n ih =>
    refine Fallible.Spec.bind (R := fun _ s => s = s₀) (Fallible.Spec.get fun s hs => hs)
      fun s => Fallible.Spec.bind ((decodeOne_spec (lowestArgmax s.logits) s₀).conseq
        (fun _ hs => hs) (fun _ _ hs => hs) fun _ _ _ => trivial) fun _ =>
          Fallible.Spec.of_forall fun s₁ ⟨hs₁, _⟩ => Fallible.Spec.bind (ih s₁) fun _ =>
            Fallible.Spec.pure _ fun s' hs' l hl => ?_
    have hlen : (s₁.cache.rows l).length = (s₀.cache.rows l).length + 1 := by
      have hrows : s₁.cache.rows l = (rt.decoder.step (lowestArgmax s.logits) s₀.core).rows l :=
        congrArg (fun c => c.rows l) hs₁.core_eq
      rw [hrows]
      exact rt.decoder.length_rows_step _ s₀.core hl
    rw [hs' l hl, hlen]
    omega

/-! ### Rows after a verification -/

private theorem spec_true {α : Type} (m : Fallible (Session rt) NnisError α)
    (P : Session rt → Prop) : Fallible.Spec P m (fun _ _ => True) fun _ _ => True := by
  intro s _
  rcases m.run s with ⟨_ | _, _⟩ <;> trivial

/-- A step that returns has rewound the session to the accepted prefix and decoded one token. -/
theorem speculativeStep_rows (s₀ : Session rt) (startPosition : ℕ) (currentLogits : List F32)
    (draft : SpeculativeDraftV1) (schedule : ConfidenceScheduleV1)
    (stats : SpeculativeAcceptanceStatsV1) :
    Fallible.Spec (fun s => s = s₀)
      (speculativeStep startPosition currentLogits draft schedule stats)
      (fun r s => s.position = startPosition + r.1.accepted + 1 ∧ s.Aligned)
      fun _ _ => True := by
  refine Fallible.Spec.bind (spec_true _ _) fun rows => Fallible.Spec.bind (spec_true _ _)
    fun verification => Fallible.Spec.bind (spec_true _ _) fun nextStats => Fallible.Spec.bind
      (R := fun _ s => s.position = startPosition + verification.accepted ∧ s.Aligned)
      (Fallible.Spec.of_forall fun s₁ _ => (rewindTo_spec _ s₁).conseq (fun _ hs => hs)
        (fun _ s ⟨_, hcore, hle⟩ => ?_) fun _ _ _ => trivial)
      fun _ => Fallible.Spec.of_forall fun s₂ ⟨hposition, ha⟩ => ?_
  · refine ⟨congrArg Decoder.State.position hcore, fun l hl => ?_⟩
    rw [hcore]
    show ((s₁.cache.rows l).take _).length = _
    rw [List.length_take, KvCache.length_rows, Nat.min_eq_left (hle l hl)]
    rfl
  · cases verification.emittedTokens.getLast? with
    | none => exact Fallible.Spec.fail _ fun _ _ => trivial
    | some emitted =>
      refine Fallible.Spec.bind ((decodeOne_spec emitted s₂).conseq (fun _ hs => hs)
        (fun _ _ hs => hs.1) fun _ _ _ => trivial) fun _ => Fallible.Spec.pure _
          fun s hs => ⟨?_, hs.aligned ha⟩
      have hnext : s.position = s₂.position + 1 := congrArg Decoder.State.position hs.core_eq
      rw [hnext, hposition]

/-- A verification that returns leaves an aligned session, whatever session it started from. -/
theorem verifyGreedyDraft_rows (s₀ : Session rt) (draft : SpeculativeDraftV1)
    (schedule : ConfidenceScheduleV1) (stats : SpeculativeAcceptanceStatsV1) :
    Fallible.Spec (fun s => s = s₀) (verifyGreedyDraft draft schedule stats)
      (fun r s => s.position = s₀.position + r.1.verification.accepted + 1 ∧ s.Aligned)
      fun _ _ => True := by
  refine Fallible.Spec.bind (R := fun s' _ => s' = s₀) (Fallible.Spec.get fun s hs => hs)
    fun s => Fallible.Spec.of_forall fun s₁ hs => ?_
  subst hs
  refine Fallible.Spec.bind (spec_true _ _) fun _ => Fallible.Spec.bind (spec_true _ _)
    fun current => Fallible.Spec.bind (R := fun r s' => ∀ x, r = .ok x →
      s'.position = s.position + x.1.accepted + 1 ∧ s'.Aligned)
      (Fallible.Spec.attempt (Fallible.Spec.of_forall fun s₂ _ =>
        (s₂.speculativeStep_rows s.position current draft schedule stats).conseq (fun _ hs => hs)
          (fun x s' hs y hy => by cases hy; exact hs) fun e s' _ y hy => by cases hy))
      fun r => ?_
  cases r with
  | ok x => exact Fallible.Spec.pure _ fun s' hs => hs x rfl
  | error e =>
    refine Fallible.Spec.bind (spec_true _ _) fun rewound => ?_
    cases rewound with
    | ok _ => exact Fallible.Spec.fail _ fun _ _ => trivial
    | error _ => exact Fallible.Spec.fail _ fun _ _ => trivial

/-- A lossless verification has found the session aligned: it leaves `accepted + 1` rows after the
start position, greedy decoding leaves them after the rows there were. -/
theorem Lossless.aligned {s : Session rt} {draft : SpeculativeDraftV1}
    {schedule : ConfidenceScheduleV1} {stats : SpeculativeAcceptanceStatsV1}
    (h : Lossless s draft schedule stats) : s.Aligned := by
  obtain ⟨step, nextStats, verified, plain, hrun, hstep⟩ := h
  intro l hl
  obtain ⟨hposition, haligned⟩ := (s.verifyGreedyDraft_rows draft schedule stats).ok rfl hrun
  have hverified : (verified.cache.rows l).length = verified.position := haligned l hl
  have hplain := (greedyDecode_rows _ s).ok rfl hstep.decoded l hl
  have hrows : verified.cache.rows l = plain.cache.rows l :=
    congrArg (fun c => c.rows l) hstep.core_eq
  rw [hrows, hplain, hposition] at hverified
  show (s.cache.rows l).length = s.position
  change _ = s.position + step.verification.accepted + 1 at hverified
  omega

/-! ### Verification of an aligned session -/

/-- The rows that a draft is judged by are finite. -/
def FiniteRows (s : Session rt) (draft : SpeculativeDraftV1) (schedule : ConfidenceScheduleV1) :
    Prop :=
  ∀ row ∈ s.draftRows draft schedule, ∀ x ∈ row, x.isFinite = true

instance (s : Session rt) (draft : SpeculativeDraftV1) (schedule : ConfidenceScheduleV1) :
    Decidable (s.FiniteRows draft schedule) :=
  inferInstanceAs (Decidable (∀ row ∈ s.draftRows draft schedule, ∀ x ∈ row, x.isFinite = true))

/-- The rows of a draft of the vocabulary are judged by the choices of the decoder. -/
theorem judgeGreedy_draftRows {s : Session rt} {draft : SpeculativeDraftV1}
    {schedule : ConfidenceScheduleV1} (hvocab : rt.config.vocabSize < 2 ^ 32)
    (hrows : s.FiniteRows draft schedule)
    (htokens : ∀ token ∈ draft.tokens, token.toNat < rt.config.vocabSize) :
    judgeGreedy rt.config.vocabSize draft schedule (s.draftRows draft schedule).flatten =
      .ok (.ofTargets draft schedule
        ((target rt).choices (schedule.scheduled draft) s.core)) := by
  rw [judgeGreedy_eq rt.config.vocabSize_pos hvocab htokens ?_
    (fun _ => length_of_mem_draftRows) hrows, map_lowestArgmax_draftRows]
  rw [draftRows, List.length_map, Target.length_trace, schedule.length_scheduled]

/-- A step that returns emits the greedy tokens. -/
theorem Stepped.emittedTokens_eq {s₀ s : Session rt} {draft : SpeculativeDraftV1}
    {schedule : ConfidenceScheduleV1} {stats nextStats : SpeculativeAcceptanceStatsV1}
    {verification : SpeculativeVerificationV1} {nextLogits : List F32}
    (h : Stepped s₀ draft schedule stats verification nextStats nextLogits s) :
    verification = .ofTargets draft schedule
        ((target rt).choices (schedule.scheduled draft) s₀.core) ∧
      verification.emittedTokens = (target rt).greedy (verification.accepted + 1) s₀.core := by
  obtain ⟨-, -, hverification⟩ := judgeGreedy_ok (fun _ => length_of_mem_draftRows) h.judged
  rw [map_lowestArgmax_draftRows] at hverification
  subst hverification
  exact ⟨rfl, Target.speculated_choices _ _ _⟩

/-- A step that returns emits tokens of the vocabulary. -/
theorem Stepped.emittedTokens_lt {s₀ s : Session rt} {draft : SpeculativeDraftV1}
    {schedule : ConfidenceScheduleV1} {stats nextStats : SpeculativeAcceptanceStatsV1}
    {verification : SpeculativeVerificationV1} {nextLogits : List F32}
    (h : Stepped s₀ draft schedule stats verification nextStats nextLogits s)
    (htokens : ∀ token ∈ draft.tokens, token.toNat < rt.config.vocabSize) :
    ∀ token ∈ verification.emittedTokens, token.toNat < rt.config.vocabSize := by
  obtain ⟨hlen, hvocab, rfl⟩ := judgeGreedy_ok (fun _ => length_of_mem_draftRows) h.judged
  obtain ⟨last, hlast, hemitted⟩ := SpeculativeVerificationV1.exists_emittedTokens_eq hlen
  intro token htoken
  rw [hemitted, List.mem_append, List.mem_singleton] at htoken
  rcases htoken with htoken | rfl
  · exact htokens token (List.mem_of_mem_take (List.mem_of_mem_take htoken))
  · exact hvocab token hlast

/-- Verifications that return from an aligned session emit the greedy tokens. -/
theorem verifyDrafts_greedy (drafts : List (SpeculativeDraftV1 × ConfidenceScheduleV1))
    {stats : SpeculativeAcceptanceStatsV1} {s verified : Session rt} {tokens : List UInt32}
    (ha : s.Aligned) (hrun : (verifyDrafts drafts stats).run s = (.ok tokens, verified)) :
    (tokens ≠ [] → s.position + tokens.length ≤ rt.config.maxPositionEmbeddings) ∧
      (∀ token ∈ tokens, token.toNat < rt.config.vocabSize) ∧
        tokens = (target rt).greedy tokens.length s.core ∧
          verified.core = (target rt).advance tokens s.core := by
  induction drafts generalizing stats s tokens with
  | nil =>
    cases hrun
    exact ⟨fun h => absurd rfl h, fun _ ht => absurd ht List.not_mem_nil, rfl, rfl⟩
  | cons draft drafts ih =>
    obtain ⟨draft, schedule⟩ := draft
    rw [verifyDrafts] at hrun
    rcases hstep : (verifyGreedyDraft draft schedule stats).run s with ⟨e | ⟨step, nextStats⟩, s₁⟩
    · rw [Fallible.run_bind_error hstep] at hrun
      cases hrun
    · rw [Fallible.run_bind_ok hstep] at hrun
      rcases hrest : (verifyDrafts drafts nextStats).run s₁ with ⟨e | rest, s₂⟩
      · rw [Fallible.run_bind_error hrest] at hrun
        cases hrun
      · rw [Fallible.run_bind_ok hrest] at hrun
        cases hrun
        obtain ⟨hvalid, -, hs₁⟩ := (s.verifyGreedyDraft_spec draft schedule stats ha).ok rfl hstep
        change Stepped s draft schedule stats step.verification nextStats step.nextLogits s₁ at hs₁
        obtain ⟨-, htokens, hfits⟩ := validateDraft_eq_ok_iff.1 hvalid
        obtain ⟨hverification, hemitted⟩ := hs₁.emittedTokens_eq
        have hlen : step.verification.emittedTokens.length = step.verification.accepted + 1 := by
          rw [hemitted, Target.length_greedy]
        have haccepted : step.verification.accepted ≤ schedule.scheduledLen draft := by
          rw [hverification]
          exact SpeculativeVerificationV1.accepted_ofTargets_le _ _ _
        have hposition := position_eq_of_advance hs₁.core_eq
        obtain ⟨hcap, hrestTokens, hgreedy, hcore⟩ := ih (aligned_of_advance hs₁.core_eq ha) hrest
        refine ⟨fun _ => ?_, fun token htoken => ?_, ?_, ?_⟩
        · rw [List.length_append]
          rcases eq_or_ne rest [] with rfl | hne
          · rw [List.length_nil]
            omega
          · have := hcap hne
            omega
        · rcases List.mem_append.1 htoken with htoken | htoken
          · exact hs₁.emittedTokens_lt htokens token htoken
          · exact hrestTokens token htoken
        · rw [List.length_append, hlen, Target.greedy_add, ← hemitted, ← hs₁.core_eq, ← hgreedy]
        · rw [hcore, hs₁.core_eq, ← Target.advance_append]

/-- A verification of an aligned session that fits is lossless when every call is accepted. -/
theorem Aligned.lossless {s : Session rt} {draft : SpeculativeDraftV1}
    {schedule : ConfidenceScheduleV1} {stats : SpeculativeAcceptanceStatsV1} (ha : s.Aligned)
    (hvocab : rt.config.vocabSize < 2 ^ 32) (hacc : s.stream.Accepting)
    (hrows : s.FiniteRows draft schedule)
    (hvalid : validateDraft s draft schedule = .ok ⟨⟩) (hstats : stats.HasRoom) :
    Lossless s draft schedule stats := by
  obtain ⟨-, htokens, hcapacity⟩ := validateDraft_eq_ok_iff.1 hvalid
  have hjudged := judgeGreedy_draftRows hvocab hrows htokens
  -- Neither the calls nor the rows nor the counters leave a reason to fail.
  have hpost := s.verifyGreedyDraft_spec draft schedule stats ha s rfl
  rcases hrun : (verifyGreedyDraft draft schedule stats).run s with ⟨e | ⟨step, nextStats⟩, s₁⟩
  · rw [hrun] at hpost
    have hfailed {s' : Session rt} (h : StepFailed s draft schedule stats s') : False := by
      rcases h.reason with hr | hr
      · exact hr (h.since.accepting hacc)
      · obtain ⟨next, hnext⟩ := hstats.record draft schedule
          ((target rt).choices (schedule.scheduled draft) s.core)
        refine hr _ hjudged next ?_
        rw [recorded, hnext]
        rfl
    cases hpost with
    | rejected _ invalid => exact absurd hvalid invalid
    | unread called refused => exact absurd (called.since.accepting hacc) refused
    | rewound _ failed _ _ => exact (hfailed failed).elim
    | lost _ failed _ _ => exact (hfailed failed).elim
  · rw [hrun] at hpost
    obtain ⟨-, -, hs₁⟩ := hpost
    change Stepped s draft schedule stats step.verification nextStats step.nextLogits s₁ at hs₁
    obtain ⟨hverification, hemitted⟩ := hs₁.emittedTokens_eq
    have haccepted : step.verification.accepted ≤ schedule.scheduledLen draft := by
      rw [hverification]
      exact SpeculativeVerificationV1.accepted_ofTargets_le _ _ _
    obtain ⟨plain, hplain, hcore⟩ := greedyDecode_of_accepting
      (step.verification.accepted + 1) ha hacc (hemitted ▸ hs₁.emittedTokens_lt htokens) (by omega)
    rw [← hemitted] at hplain hcore
    refine ⟨step, nextStats, s₁, plain, hrun, hplain, haccepted, ?_, ?_,
      hs₁.core_eq.trans hcore.symm⟩
    · have hlength : ((target rt).choices (schedule.scheduled draft) s.core).length =
          schedule.scheduledLen draft + 1 := by
        rw [Target.length_choices, schedule.length_scheduled]
      obtain ⟨token, -, htoken⟩ := SpeculativeVerificationV1.exists_emittedTokens_eq hlength
      rw [← hverification] at htoken
      have hlen : ((schedule.scheduled draft).take step.verification.accepted).length =
          step.verification.accepted := by
        rw [List.length_take, schedule.length_scheduled, Nat.min_eq_left haccepted]
      rw [htoken, List.take_left' hlen, schedule.take_scheduled draft haccepted]
    · by_cases hall : step.verification.accepted = schedule.scheduledLen draft
      · exact Or.inl hall
      · have hmaximal := (target rt).agreement_choices_maximal (schedule.scheduled draft) s.core
        have hagreement : agreement (schedule.scheduled draft) ((target rt).choices
            (schedule.scheduled draft) s.core) = step.verification.accepted :=
          congrArg SpeculativeVerificationV1.accepted hverification.symm
        rw [hagreement, schedule.length_scheduled, ← hemitted] at hmaximal
        refine Or.inr ?_
        have hlast := hmaximal.resolve_left hall
        rwa [ConfidenceScheduleV1.scheduled, List.getElem?_take_of_lt (by omega)] at hlast

end Session

/-- A verification that fits a prefilled session, whose calls are all accepted and whose rows of
logits are finite along the draft, is lossless exactly when every layer of the session holds one row
per position. From such a session the verifications of any drafts emit what plain greedy decoding
emits. -/
theorem InferenceSession.lossless_iff_aligned (model : Model) (s : InferenceSession model)
    (hvocab : model.config.vocabSize < 2 ^ 32) (hacc : s.stream.Accepting) :
    (∀ draft schedule stats, Session.validateDraft s draft schedule = .ok ⟨⟩ →
      s.FiniteRows draft schedule → stats.HasRoom →
        (Session.Lossless s draft schedule stats ↔ s.Aligned)) ∧
    (s.Aligned → ∀ drafts stats tokens verified,
      (Session.verifyDrafts drafts stats).run s = (.ok tokens, verified) →
        ∃ plain, (Session.greedyDecode tokens.length).run s = (.ok tokens, plain) ∧
          verified.core = plain.core) := by
  refine ⟨fun draft schedule stats hvalid hrows hstats => ⟨fun h => h.aligned, fun ha =>
    ha.lossless hvocab hacc hrows hvalid hstats⟩, ?_⟩
  intro ha drafts stats tokens verified hrun
  obtain ⟨hcapacity, hvocabulary, htokens, hcore⟩ := Session.verifyDrafts_greedy drafts ha hrun
  rcases eq_or_ne tokens [] with rfl | hne
  · exact ⟨s, rfl, hcore⟩
  · obtain ⟨plain, hplain, hcore'⟩ := Session.greedyDecode_of_accepting tokens.length ha hacc
      (htokens ▸ hvocabulary) (hcapacity hne)
    rw [← htokens] at hplain hcore'
    exact ⟨plain, hplain, hcore.trans hcore'.symm⟩

/-- The equivalence after the prompt `[1]`. -/
theorem InferenceSession.lossless_iff_aligned_prefilled :
    Session.Lossless (prefilledSession fun _ _ => none) (oneTokenDraft 0) fourTokens noSteps ↔
      (prefilledSession fun _ _ => none).Aligned :=
  (InferenceSession.lossless_iff_aligned alternating (prefilledSession fun _ _ => none)
    (by decide) (fun _ _ => rfl)).1 (oneTokenDraft 0) fourTokens noSteps (by rfl) (by decide)
      ⟨by decide, by decide, by decide, by decide, by decide, by decide, by decide⟩

/-- After a decode whose attention was refused the verification of a draft that fits is not
lossless. -/
theorem InferenceSession.not_lossless_of_refused_attention :
    let s := (SessionOp.run [(.decode (.prefill [1]), fun _ _ => none),
      (.decode (.decodeOne 0), refusing (.launch (.output 0) 0))]
        alternatingSession).onDriver fun _ _ => none
    s.stream.Accepting ∧
      Session.validateDraft s (oneTokenDraft 0) fourTokens = .ok ⟨⟩ ∧
        ¬ Session.Lossless s (oneTokenDraft 0) fourTokens noSteps := by
  refine ⟨fun _ _ => rfl, by rfl, fun h => ?_⟩
  have hlen := h.aligned.rowCount_eq Nat.one_pos
  revert hlen
  decide

end NNIS
