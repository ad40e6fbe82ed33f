import NNIS.Model.SessionLossless

/-!
# Compaction and speculative verification

Compaction removes rows and keeps the position, so a session holds as many rows fewer than
positions as have been removed since its prefill. The rewind of a verification cuts the layers by a
position, which is the right number of rows only while none has been removed.

## Main definitions

* `CompactionOp`, `CompactionOp.step`, `CompactionOp.run` — runs that count the removed rows.
* `Session.Offset`, `Session.Composes`.

## Main results

* `InferenceSession.offset_and_composes_iff`.
-/

set_option autoImplicit false

namespace NNIS

namespace Session

variable {V : Type} {rt : Pipeline V}

/-- In every layer the position is ahead of the rows by the number of removed rows. -/
def Offset (removed : ℕ) (s : Session rt) : Prop :=
  ∀ l < rt.config.numHiddenLayers, s.position = s.cache.rowCount l + removed

/-- A verification returns, and every layer then holds the rows it held and one row for each emitted
token. -/
def Composes (s : Session rt) (draft : SpeculativeDraftV1) (schedule : ConfidenceScheduleV1)
    (stats : SpeculativeAcceptanceStatsV1) : Prop :=
  ∃ step nextStats s',
    (verifyGreedyDraft draft schedule stats).run s = (.ok (step, nextStats), s') ∧
    s'.core = (target rt).advance step.verification.emittedTokens s.core ∧
      ∀ l < rt.config.numHiddenLayers, ∃ new, s'.cache.rows l = s.cache.rows l ++ new ∧
        new.length = step.verification.emittedTokens.length

theorem offset_zero_iff {s : Session rt} : s.Offset 0 ↔ s.Aligned := by
  refine forall₂_congr fun l _ => ?_
  rw [Nat.add_zero, ← KvCache.length_rows]
  exact eq_comm

theorem Offset.of_sameRows {removed : ℕ} {s s' : Session rt} (h : s.Offset removed)
    (hcore : s'.core.SameRows s.core) : s'.Offset removed := by
  intro l hl
  have hposition : s'.position = s.position := hcore.1
  have hrows : s'.cache.rows l = s.cache.rows l := congrFun hcore.2 l
  rw [hposition, ← KvCache.length_rows, hrows, KvCache.length_rows, h l hl]

theorem Offset.of_core_eq {removed : ℕ} {s s' : Session rt} (h : s.Offset removed)
    (hcore : s'.core = s.core) : s'.Offset removed :=
  h.of_sameRows (hcore ▸ ⟨rfl, rfl⟩)

/-- Tokens move the position and the rows together. -/
theorem Offset.of_advance {removed : ℕ} (tokens : List UInt32) {s s' : Session rt}
    (hcore : s'.core = (target rt).advance tokens s.core) :
    s'.Offset removed ↔ s.Offset removed := by
  refine forall₂_congr fun l hl => ?_
  have hposition := position_eq_of_advance hcore
  have hrows : (s'.cache.rows l).length = (s.cache.rows l).length + tokens.length :=
    (congrArg (fun c => (c.rows l).length) hcore).trans
      (rt.decoder.length_rows_advance lowestArgmax tokens s.core hl)
  rw [KvCache.length_rows, KvCache.length_rows] at hrows
  omega

theorem Offset.room {removed : ℕ} {s : Session rt} (h : s.Offset removed)
    (hposition : s.position < rt.config.maxPositionEmbeddings) : s.Room :=
  ⟨hposition, fun l hl => by have := h l hl; omega⟩

/-- A session compacted to some rows holds them. -/
theorem compactKvCacheRows_spec (s₀ : Session rt) (contents : ℕ → ℕ → V)
    (retainedRows : List ℕ) :
    Fallible.Spec (fun s => s = s₀) (compactKvCacheRows contents retainedRows)
      (fun _ s => s.position = s₀.position ∧ s.logits = s₀.logits ∧
        KvCache.validateRetainedPositions (s₀.cache.rowCount 0) retainedRows = .ok ⟨⟩ ∧
          ∀ l < rt.config.numHiddenLayers, s₀.cache.rowCount l = s₀.cache.rowCount 0 ∧
            s.cache.rows l = KvCache.selectRows retainedRows (s₀.cache.rows l))
      fun _ s => s.core = s₀.core := by
  have hany : ∀ ok, anyCall (.synchronize .compact, ok) := fun _ => trivial
  refine Fallible.Spec.bind ((s₀.call_spec _ (fun _ => true) hany rfl).conseq (fun _ hs => hs)
    (fun _ _ hs => hs) fun _ s hs => hs.1.core_eq)
      fun _ => Fallible.Spec.of_forall fun s₁ ⟨stream, hs₁, _⟩ => ?_
  subst hs₁
  refine (((s₀.withStream stream).cache.compactKvCache_spec contents retainedRows).zoom
    (s₀.withStream stream)).conseq (fun s hs => ⟨hs, hs ▸ rfl⟩) ?_ ?_
  · rintro - s ⟨c, ⟨-, hvalid, hrows⟩, rfl⟩
    exact ⟨rfl, rfl, hvalid, hrows⟩
  · rintro - s ⟨c, hc, rfl⟩
    exact Decoder.State.ext rfl (funext hc.1.rows_eq) rfl

/-- A prefill that returns leaves an aligned session, whatever session it started from. -/
theorem prefill_aligned (inputIds : List UInt32) {s s' : Session rt} {logits : List F32}
    (h : (prefill inputIds).run s = (.ok logits, s')) : s'.Aligned := by
  have hspec : Fallible.Spec (fun s' => s' = s) (prefill inputIds) (fun _ => Aligned)
      fun _ _ => True := by
    refine Fallible.Spec.bind (R := fun _ s' => s' = s) (Fallible.Spec.ofExcept
      (fun _ _ _ hs => hs) fun _ _ _ _ => trivial) fun _ => Fallible.Spec.bind
        (s.reset_spec.conseq (fun _ hs => hs) (fun _ _ hs => aligned_of_cut_zero hs.2)
          fun _ _ _ => trivial) fun _ => ?_
    have hkeeps : Keeps (do
        call .uploadTokens
        let enqueueResult ← (enqueuePrefill inputIds).attempt
        finish enqueueResult
        readLogits : Fallible (Session rt) NnisError (List F32)) :=
      (Keeps.call _).bind fun _ => (enqueuePrefill_keeps inputIds).awaited fun _ => readLogits_keeps
    exact hkeeps.conseq (fun _ hs => hs) (fun _ _ hs => hs) fun _ _ _ => trivial
  exact hspec.ok rfl h

/-- A verification that composes with the removals before it has found no row removed. -/
theorem Composes.removed_eq_zero {removed : ℕ} {s : Session rt} {draft : SpeculativeDraftV1}
    {schedule : ConfidenceScheduleV1} {stats : SpeculativeAcceptanceStatsV1}
    (h : s.Composes draft schedule stats) (hoffset : s.Offset removed) : removed = 0 := by
  obtain ⟨step, nextStats, s', hrun, hcore, -⟩ := h
  obtain ⟨-, haligned⟩ := (s.verifyGreedyDraft_rows draft schedule stats).ok rfl hrun
  have hoffset' := (Offset.of_advance _ hcore).2 hoffset 0 rt.config.numHiddenLayers_pos
  rw [haligned.rowCount_eq rt.config.numHiddenLayers_pos] at hoffset'
  omega

/-- A verification that returns from an aligned session composes with what came before. -/
theorem Lossless.composes {s : Session rt} {draft : SpeculativeDraftV1}
    {schedule : ConfidenceScheduleV1} {stats : SpeculativeAcceptanceStatsV1}
    (h : Lossless s draft schedule stats) : s.Composes draft schedule stats := by
  have ha := h.aligned
  obtain ⟨step, nextStats, s', -, hrun, -⟩ := h
  obtain ⟨-, -, hs'⟩ := (s.verifyGreedyDraft_spec draft schedule stats ha).ok rfl hrun
  refine ⟨step, nextStats, s', hrun, hs'.core_eq, fun l hl => ?_⟩
  obtain ⟨new, hnew, hlen⟩ :=
    rt.decoder.rows_advance lowestArgmax step.verification.emittedTokens s.core l
  exact ⟨new, (congrArg (fun c => c.rows l) hs'.core_eq).trans hnew, hlen.trans (if_pos hl)⟩

end Session

/-! ### Runs -/

/-- The operations of a run on a prefilled session, over device elements `V`. -/
inductive CompactionOp (V : Type)
  | decodeOne (token : UInt32)
  /-- With the contents of the memory that the replacement is allocated from. -/
  | compactKvCacheRows (contents : ℕ → ℕ → V) (retainedRows : List ℕ)
  | verifyGreedyDraft (draft : SpeculativeDraftV1) (schedule : ConfidenceScheduleV1)
      (stats : SpeculativeAcceptanceStatsV1)

/-- A session and the number of rows that compactions have removed from each layer since its
prefill. -/
structure Compacted {V : Type} (rt : Pipeline V) where
  session : Session rt
  removed : ℕ

/-- The environment that accepts every call. -/
def accepts : Driver := fun _ _ => none

namespace CompactionOp

variable {V : Type} {rt : Pipeline V}

/-- An operation whose calls are all accepted, whatever it returns. -/
def step (op : CompactionOp V) (c : Compacted rt) : Compacted rt :=
  match op with
  | decodeOne token => { c with
      session := ((Session.decodeOne token).run (c.session.onDriver accepts)).2 }
  | compactKvCacheRows contents retainedRows =>
    match (Session.compactKvCacheRows contents retainedRows).run (c.session.onDriver accepts) with
    | (.ok _, session) => ⟨session, c.removed + (c.session.cache.rowCount 0 - retainedRows.length)⟩
    | (.error _, session) => { c with session := session }
  | verifyGreedyDraft draft schedule stats => { c with
      session := ((Session.verifyGreedyDraft draft schedule stats).run
        (c.session.onDriver accepts)).2 }

/-- The session after the operations of a run. -/
def run (ops : List (CompactionOp V)) (c : Compacted rt) : Compacted rt :=
  ops.foldl (fun c op => op.step c) c

/-- A verification that passes its checks is made before any row is removed. -/
def BeforeRemoval (op : CompactionOp V) (c : Compacted rt) : Prop :=
  match op with
  | verifyGreedyDraft draft schedule _ =>
    Session.validateDraft c.session draft schedule = .ok ⟨⟩ → c.removed = 0
  | _ => True

/-- Every verification of a run is made before any row is removed. -/
def RunBeforeRemoval : List (CompactionOp V) → Compacted rt → Prop
  | [], _ => True
  | op :: ops, c => op.BeforeRemoval c ∧ RunBeforeRemoval ops (op.step c)

/-- A step keeps the offset. -/
theorem offset_step (op : CompactionOp V) {c : Compacted rt} (h : c.session.Offset c.removed)
    (hop : op.BeforeRemoval c) : (op.step c).session.Offset (op.step c).removed := by
  have hacc : (c.session.onDriver accepts).stream.Accepting := fun _ _ => rfl
  have h' : (c.session.onDriver accepts).Offset c.removed := h
  cases op with
  | decodeOne token =>
    show Session.Offset c.removed ((Session.decodeOne token).run _).2
    have hpost := Session.decodeOne_spec token (c.session.onDriver accepts) _ rfl
    generalize (Session.decodeOne token).run (c.session.onDriver accepts) = outcome at hpost ⊢
    rcases outcome with ⟨e | logits, s⟩
    · have hfailed : Session.DecodeFailed token (c.session.onDriver accepts) s := hpost
      have hs := hfailed.since.accepting hacc
      cases hfailed with
      | rejected session _ => exact session ▸ h'
      | interrupted hi position_lt =>
        exact absurd hs (hi.not_accepting.resolve_right (not_not.2 (h'.room position_lt)))
      | unreported _ refused => exact absurd hs refused
    · exact (Session.Offset.of_advance [token] hpost.1.core_eq).2 h'
  | compactKvCacheRows contents retainedRows =>
    have hpost := (c.session.onDriver accepts).compactKvCacheRows_spec contents retainedRows _ rfl
    simp only [step]
    generalize (Session.compactKvCacheRows contents retainedRows).run
      (c.session.onDriver accepts) = outcome at hpost ⊢
    rcases outcome with ⟨e | u, s⟩
    · exact h'.of_core_eq hpost
    · obtain ⟨hposition, -, hvalid, hrows⟩ := hpost
      intro l hl
      have hbound := (KvCache.validateRetainedPositions_ok hvalid).1
      have hcount : s.cache.rowCount l = retainedRows.length := by
        rw [← KvCache.length_rows, (hrows l hl).2, KvCache.selectRows_rows _ fun p hp => ?_,
          List.length_map]
        rw [(hrows l hl).1]
        exact hbound p hp
      have hle := KvCache.length_le_of_selected hvalid
      have hbefore := h l hl
      have huniform := (hrows l hl).1
      change c.session.cache.rowCount l = c.session.cache.rowCount 0 at huniform
      change retainedRows.length ≤ c.session.cache.rowCount 0 at hle
      change s.position = c.session.position at hposition
      show s.position = s.cache.rowCount l +
        (c.removed + (c.session.cache.rowCount 0 - retainedRows.length))
      omega
  | verifyGreedyDraft draft schedule stats =>
    show Session.Offset c.removed ((Session.verifyGreedyDraft draft schedule stats).run _).2
    by_cases hvalid : Session.validateDraft c.session draft schedule = .ok ⟨⟩
    · have hzero : c.removed = 0 := hop hvalid
      rw [hzero] at h' ⊢
      have ha := Session.offset_zero_iff.1 h'
      have hpost := (c.session.onDriver accepts).verifyGreedyDraft_spec draft schedule stats ha _
        rfl
      generalize (Session.verifyGreedyDraft draft schedule stats).run
        (c.session.onDriver accepts) = outcome at hpost ⊢
      rcases outcome with ⟨e | r, s⟩
      · have hfailed : Session.VerifyFailed _ draft schedule stats s := hpost
        cases hfailed with
        | rejected session _ => exact session ▸ h'
        | unread called _ => exact h'.of_core_eq called.core_eq
        | rewound s₁ failed _ core_eq =>
          refine h'.of_sameRows ?_
          rw [core_eq, failed.core_cut ha]
          exact ⟨rfl, rfl⟩
        | lost s₁ failed called refused =>
          exact absurd ((failed.since.trans (called.since.mono fun _ _ => trivial)).accepting hacc)
            refused.2
      · exact (Session.Offset.of_advance _ hpost.2.2.core_eq).2 h'
    · have hinvalid : ¬ (c.session.onDriver accepts).validateDraft draft schedule = .ok ⟨⟩ := hvalid
      obtain ⟨e, he⟩ := Session.run_verifyGreedyDraft_of_invalid stats hinvalid
      rw [he]
      exact h'

/-- A run keeps the offset. -/
theorem offset_run (ops : List (CompactionOp V)) {c : Compacted rt}
    (h : c.session.Offset c.removed) (hops : RunBeforeRemoval ops c) :
    (run ops c).session.Offset (run ops c).removed := by
  induction ops generalizing c with
  | nil => exact h
  | cons op ops ih => exact ih (op.offset_step h hops.1) hops.2

end CompactionOp

/-- In every run from a prefill whose calls are all accepted, and whose verifications are made
before any row is removed, the position is ahead of the rows of every layer by the number of removed
rows. There a verification that fits, and whose rows of logits are finite, composes with the
removals exactly when there have been none. -/
theorem InferenceSession.offset_and_composes_iff (model : Model) (s s₀ : InferenceSession model)
    (inputIds : List UInt32) (logits : List F32)
    (hprefill : (Session.prefill inputIds).run (s.onDriver accepts) = (.ok logits, s₀))
    (ops : List (CompactionOp F32)) (hops : CompactionOp.RunBeforeRemoval ops ⟨s₀, 0⟩) :
    let c := CompactionOp.run ops ⟨s₀, 0⟩
    c.session.Offset c.removed ∧
      (model.config.vocabSize < 2 ^ 32 → ∀ draft schedule stats,
        Session.validateDraft c.session draft schedule = .ok ⟨⟩ →
          c.session.FiniteRows draft schedule → stats.HasRoom →
            ((c.session.onDriver accepts).Composes draft schedule stats ↔ c.removed = 0)) := by
  have hoffset := CompactionOp.offset_run ops
    (Session.offset_zero_iff.2 (Session.prefill_aligned inputIds hprefill)) hops
  refine ⟨hoffset, fun hvocab draft schedule stats hvalid hrows hstats =>
    ⟨fun h => h.removed_eq_zero hoffset, fun hzero => ?_⟩⟩
  rw [hzero] at hoffset
  have ha : ((CompactionOp.run ops ⟨s₀, 0⟩).session.onDriver accepts).Aligned :=
    Session.offset_zero_iff.1 hoffset
  exact (ha.lossless hvocab (fun _ _ => rfl) hrows hvalid hstats).composes

/-- A verification, a compaction that removes a row and a decode after the prompt `[1]`. -/
theorem InferenceSession.offset_and_composes_iff_prefilled :
    let c := CompactionOp.run [.verifyGreedyDraft (oneTokenDraft 0) fourTokens noSteps,
        .compactKvCacheRows (fun _ _ => default) [0, 2], .decodeOne 0]
      ⟨((Session.prefill [1]).run (alternatingSession.onDriver accepts)).2, 0⟩
    c.session.Offset c.removed ∧
      ((c.session.onDriver accepts).Composes (oneTokenDraft 0) fourTokens noSteps ↔
        c.removed = 0) := by
  obtain ⟨hoffset, hcomposes⟩ := InferenceSession.offset_and_composes_iff alternating
    alternatingSession _ [1] _ (Prod.ext rfl rfl)
    [.verifyGreedyDraft (oneTokenDraft 0) fourTokens noSteps,
      .compactKvCacheRows (fun _ _ => default) [0, 2], .decodeOne 0]
    ⟨fun _ => rfl, trivial, trivial, trivial⟩
  refine ⟨hoffset, hcomposes (by decide) (oneTokenDraft 0) fourTokens noSteps (by rfl) ?_ ?_⟩
  · decide
  · exact ⟨by decide, by decide, by decide, by decide, by decide, by decide, by decide⟩

/-- Three tokens, a compaction that removes the second row, and a verification: its rewind is
rejected, and a row of the draft stays in the cache. -/
theorem InferenceSession.not_offset_of_compacted :
    let s := (CompactionOp.run [.compactKvCacheRows (fun _ _ => default) [0, 2]]
      ⟨((Session.prefill [1, 0, 1]).run (alternatingSession.onDriver accepts)).2, 0⟩)
    let s' := CompactionOp.run [.verifyGreedyDraft (oneTokenDraft 0) fourTokens noSteps] s
    Session.validateDraft s.session (oneTokenDraft 0) fourTokens = .ok ⟨⟩ ∧
      s.session.position = 3 ∧ s.session.cache.rowCount 0 = 2 ∧ s.removed = 1 ∧
      s'.session.position = 3 ∧ s'.session.cache.rowCount 0 = 3 ∧
      ¬ s'.session.Offset s'.removed := by
  refine ⟨by rfl, by decide, by decide, by decide, by decide, by decide, fun h => ?_⟩
  have hcount := h 0 Nat.one_pos
  revert hcount
  decide

end NNIS
