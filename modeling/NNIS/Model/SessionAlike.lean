import NNIS.Model.SessionVerify
import NNIS.Semantics.Pairs

/-!
# Sessions that are alike

Two sessions are alike when their streams, positions, active rows and logits are equal. Rows beyond
the active ones and the current token may differ: no later verification or read of the logits
returns them.

## Main definitions

* `KvCache.Alike`, `Session.Alike`.

## Main results

* `KvCache.appendLayerAsync_respects`, `Session.verifyGreedyDraft_respects`.
-/

set_option autoImplicit false

namespace NNIS

variable {V : Type}

/-! ### The cache -/

namespace KvCache

variable {config : KvCacheConfig}

/-- Equal streams and lengths. -/
def SameLengths (c d : KvCache config V) : Prop := c.stream = d.stream ∧ c.lengths = d.lengths

/-- Equal streams and active rows. -/
def Alike (c d : KvCache config V) : Prop := c.stream = d.stream ∧ c.rows = d.rows

theorem lengths_eq_of_rows_eq {c d : KvCache config V} (h : c.rows = d.rows) :
    c.lengths = d.lengths := by
  refine List.ext_getElem (c.length_lengths.trans d.length_lengths.symm) fun l hc hd => ?_
  have hcount : c.rowCount l = d.rowCount l := by rw [← length_rows, ← length_rows, h]
  rwa [rowCount, rowCount, List.getElem?_eq_getElem hc, List.getElem?_eq_getElem hd,
    Option.getD_some, Option.getD_some] at hcount

theorem Alike.sameLengths {c d : KvCache config V} (h : Alike c d) : SameLengths c d :=
  ⟨h.1, lengths_eq_of_rows_eq h.2⟩

theorem call_respects (site : CallSite) :
    Fallible.Respects SameLengths (call site : Fallible (KvCache config V) NnisError PUnit)
      SameLengths SameLengths :=
  (Fallible.Respects.eq _).zoom (fun _ _ h => h.1) (fun _ _ _ _ h hs => ⟨hs, h.2⟩)
    fun _ _ _ _ h hs => ⟨hs, h.2⟩

theorem callOrDrain_respects (site : CallSite) :
    Fallible.Respects SameLengths (callOrDrain site : Fallible (KvCache config V) NnisError PUnit)
      SameLengths SameLengths := by
  refine (call_respects site).attempt.bind fun r => ?_
  cases r with
  | ok _ => exact Fallible.Respects.pure _ fun _ _ h => h
  | error e =>
    exact (call_respects _).attempt.bind fun _ => Fallible.Respects.fail e fun _ _ h => h

theorem submitCopies_respects (layer elementsPerHead : ℕ) (keys values : List V)
    (copies : List KvHeadCopy) :
    Fallible.Respects SameLengths
      (submitCopies layer elementsPerHead keys values copies :
        Fallible (KvCache config V) NnisError PUnit) SameLengths SameLengths := by
  unfold submitCopies
  split_ifs
  · exact Fallible.Respects.pure _ fun _ _ h => h
  · exact (call_respects _).bind fun _ => Fallible.Respects.forEach fun copy =>
      (callOrDrain_respects _).bind fun _ =>
        (Fallible.Respects.modify (writeKeys copy.destination _) fun _ _ h => ⟨h.1, h.2⟩).bind
          fun _ => (callOrDrain_respects _).bind fun _ =>
            Fallible.Respects.modify (writeValues copy.destination _) fun _ _ h => ⟨h.1, h.2⟩

/-- The course of an append depends on the lengths only. -/
theorem appendLayerAsync_respects_lengths (layer : ℕ) (keys values : List V) (tokens : ℕ) :
    Fallible.Respects SameLengths
      (appendLayerAsync layer keys values tokens : Fallible (KvCache config V) NnisError PUnit)
      SameLengths SameLengths := by
  refine Fallible.Respects.get_bind (fun c d h => ?_) fun c =>
    (Fallible.Respects.ofExcept _ (fun _ _ h => h) fun _ _ h => h).bind fun start =>
      (Fallible.Respects.ofExcept _ (fun _ _ h => h) fun _ _ h => h).bind fun last => ?_
  · rw [len, len, h.2]
  · split_ifs
    · refine (Fallible.Respects.ofExcept _ (fun _ _ h => h) fun _ _ h => h).bind fun expected => ?_
      split_ifs
      · exact Fallible.Respects.fail _ fun _ _ h => h
      · exact (Fallible.Respects.ofExcept _ (fun _ _ h => h) fun _ _ h => h).bind fun _ =>
          (Fallible.Respects.ofExcept _ (fun _ _ h => h) fun _ _ h => h).bind fun _ =>
            (submitCopies_respects _ _ _ _ _).bind fun _ => (callOrDrain_respects _).bind fun _ =>
              Fallible.Respects.modify _ fun _ _ h => ⟨h.1, congrArg (List.set · layer last) h.2⟩
    · exact Fallible.Respects.fail _ fun _ _ h => h

/-- Two appends to caches with the same active rows leave the same active rows. -/
theorem appendLayerAsync_respects {layer tokens : ℕ} {keys values : List V}
    (hlayer : layer < config.layers) (hkeys : keys.length = config.heads * tokens * config.headDim)
    (hvalues : values.length = config.heads * tokens * config.headDim) :
    Fallible.Respects Alike
      (appendLayerAsync layer keys values tokens : Fallible (KvCache config V) NnisError PUnit)
      Alike Alike := by
  intro c d h
  have hagree := appendLayerAsync_respects_lengths layer keys values tokens c d h.sameLengths
  by_cases hfull : config.capacity < c.rowCount layer + tokens
  · have hfull' : config.capacity < d.rowCount layer + tokens := by
      rwa [← length_rows, ← h.2, length_rows]
    obtain ⟨e, he⟩ := c.appendLayerAsync_of_full keys values hlayer hfull
    obtain ⟨e', he'⟩ := d.appendLayerAsync_of_full keys values hlayer hfull'
    rw [he, he'] at hagree ⊢
    exact ⟨hagree.1, h⟩
  · have hfit' : d.rowCount layer + tokens ≤ config.capacity := by
      rw [← length_rows, ← h.2, length_rows]
      exact Nat.not_lt.1 hfull
    have hc := c.appendLayerAsync_spec hlayer (Nat.not_lt.1 hfull) hkeys hvalues c rfl
    have hd := d.appendLayerAsync_spec hlayer hfit' hkeys hvalues d rfl
    generalize (appendLayerAsync layer keys values tokens).run c = outcome at hagree hc
    generalize (appendLayerAsync layer keys values tokens).run d = outcome' at hagree hd
    rcases outcome with ⟨e | u, c'⟩ <;> rcases outcome' with ⟨e' | u', d'⟩
    · refine ⟨hagree.1, hagree.2.1, funext fun l => ?_⟩
      rw [hc.rows_eq l, hd.rows_eq l, h.2]
    · exact hagree
    · exact hagree
    · refine ⟨hagree.1, hagree.2.1, funext fun l => ?_⟩
      rw [hc.rows_eq l, hd.rows_eq l, h.2]

theorem truncate_respects (n : ℕ) :
    Fallible.Respects Alike (truncate n : Fallible (KvCache config V) NnisError PUnit)
      Alike Alike := by
  intro c d h
  have hlengths := lengths_eq_of_rows_eq h.2
  have hc := c.truncate_spec n c rfl
  have hd := d.truncate_spec n d rfl
  have hfst : ((truncate n).run c).1 = ((truncate n).run d).1 := by
    simp only [truncate, Fallible.run_bind, Fallible.run_get]
    split <;> rename_i hc' <;> rw [hlengths] at hc' <;> split <;> rename_i hd' <;>
      rw [hc'] at hd' <;> cases hd' <;> rfl
  generalize (truncate n).run c = outcome at hc hfst
  generalize (truncate n).run d = outcome' at hd hfst
  rcases outcome with ⟨e | u, c'⟩ <;> rcases outcome' with ⟨e' | u', d'⟩
  · rw [hc.1, hd.1]
    exact ⟨Except.error.inj hfst, h⟩
  · cases hfst
  · cases hfst
  · refine ⟨rfl, ?_, funext fun l => ?_⟩
    · rw [hc.1, hd.1, h.1]
    · rw [hc.2.1 l, hd.2.1 l, h.2]

end KvCache

/-! ### The session -/

namespace Session

variable {rt : Pipeline V}

/-- Equal streams, positions, active rows and logits, and current tokens in a relation. -/
structure AlikeOn (tokens : UInt32 → UInt32 → Prop) (s t : Session rt) : Prop where
  stream_eq : s.stream = t.stream
  core_eq : s.core = t.core
  currentToken : tokens s.currentToken t.currentToken

/-- Equal streams, positions, active rows and logits. -/
abbrev Alike (s t : Session rt) : Prop := AlikeOn (fun _ _ => True) s t

section AlikeOn

variable {tokens : UInt32 → UInt32 → Prop}

theorem AlikeOn.position_eq {s t : Session rt} (h : AlikeOn tokens s t) :
    s.position = t.position :=
  congrArg Decoder.State.position h.core_eq

theorem AlikeOn.rows_eq {s t : Session rt} (h : AlikeOn tokens s t) :
    s.cache.rows = t.cache.rows :=
  congrArg Decoder.State.rows h.core_eq

theorem AlikeOn.logits_eq {s t : Session rt} (h : AlikeOn tokens s t) : s.logits = t.logits :=
  congrArg Decoder.State.output h.core_eq

theorem AlikeOn.alike {s t : Session rt} (h : AlikeOn tokens s t) : Alike s t :=
  ⟨h.stream_eq, h.core_eq, trivial⟩

/-- An operation of the cache on sessions that are alike. -/
theorem onCache_respects {m : Fallible (KvCache rt.config.cache V) NnisError PUnit}
    (h : Fallible.Respects KvCache.Alike m KvCache.Alike KvCache.Alike) :
    Fallible.Respects (AlikeOn tokens) (onCache m : Fallible (Session rt) NnisError PUnit)
      (AlikeOn tokens) (AlikeOn tokens) :=
  h.zoom (fun _ _ hst => ⟨hst.stream_eq, hst.rows_eq⟩)
    (fun _ _ _ _ hst hcd => ⟨hcd.1, Decoder.State.ext hst.position_eq hcd.2 hst.logits_eq,
      hst.currentToken⟩)
    fun _ _ _ _ hst hcd => ⟨hcd.1, Decoder.State.ext hst.position_eq hcd.2 hst.logits_eq,
      hst.currentToken⟩

theorem call_respects (site : CallSite) :
    Fallible.Respects (AlikeOn tokens) (call site : Fallible (Session rt) NnisError PUnit)
      (AlikeOn tokens) (AlikeOn tokens) :=
  onCache_respects ((Fallible.Respects.eq _).zoom (fun _ _ h => h.1) (fun _ _ _ _ h hs => ⟨hs, h.2⟩)
    fun _ _ _ _ h hs => ⟨hs, h.2⟩)

theorem submit_respects {α : Type} (stage : Stage) (batch : Batch α) :
    Fallible.Respects (AlikeOn tokens)
      (submit stage batch : Fallible (Session rt) NnisError α) (AlikeOn tokens)
      (AlikeOn tokens) :=
  (Fallible.Respects.forRange fun _ _ => call_respects _).bind fun _ =>
    Fallible.Respects.pure _ fun _ _ h => h

/-- A layer reads the active rows only. -/
theorem enqueueLayer_respects (position : ℕ) {layer : ℕ} (hidden : List V)
    (hlayer : layer < rt.config.numHiddenLayers) :
    Fallible.Respects (AlikeOn tokens)
      (enqueueLayer position layer hidden : Fallible (Session rt) NnisError (List V))
      (AlikeOn tokens) (AlikeOn tokens) := by
  have happend := @onCache_respects _ rt tokens _ (KvCache.appendLayerAsync_respects hlayer
    ((rt.length_key layer position hidden).trans (keyValueWidth_eq _))
    ((rt.length_value layer position hidden).trans (keyValueWidth_eq _)))
  simp only [enqueueLayer, submit, bind_assoc, pure_bind]
  refine (Fallible.Respects.forRange fun _ _ => call_respects _).bind fun _ => happend.bind fun _ =>
    Fallible.Respects.get_bind (fun s t h => ?_) fun s =>
      (Fallible.Respects.forRange fun _ _ => call_respects _).bind fun _ =>
        Fallible.Respects.pure _ fun _ _ h => h
  rw [h.rows_eq]

theorem finish_respects {α : Type} (r : Except NnisError α) :
    Fallible.Respects (AlikeOn tokens) (finish r : Fallible (Session rt) NnisError α)
      (AlikeOn tokens) (AlikeOn tokens) := by
  refine (call_respects _).attempt.bind fun w => ?_
  cases r with
  | ok a =>
    exact (Fallible.Respects.ofExcept w (fun _ _ h => h) fun _ _ h => h).bind fun _ =>
      Fallible.Respects.pure _ fun _ _ h => h
  | error e => exact Fallible.Respects.fail e fun _ _ h => h

theorem readLogits_respects :
    Fallible.Respects (AlikeOn tokens) (readLogits : Fallible (Session rt) NnisError (List F32))
      (AlikeOn tokens) (AlikeOn tokens) :=
  (call_respects _).bind fun _ => Fallible.Respects.get_bind
    (fun _ _ h => congrArg Pure.pure h.logits_eq) fun _ => Fallible.Respects.pure _ fun _ _ h => h

end AlikeOn

/-- Encoding reads the current token as well. -/
theorem enqueueCurrentToken_respects :
    Fallible.Respects (AlikeOn Eq) (enqueueCurrentToken : Fallible (Session rt) NnisError PUnit)
      (AlikeOn Eq) (AlikeOn Eq) := by
  have hlogits (normed : List V) : Fallible.Respects (AlikeOn Eq)
      (Fallible.modify (writeLogits normed) : Fallible (Session rt) NnisError PUnit)
      (AlikeOn Eq) (AlikeOn Eq) :=
    Fallible.Respects.modify _ fun _ _ h =>
      ⟨h.stream_eq, Decoder.State.ext h.position_eq h.rows_eq rfl, h.currentToken⟩
  refine Fallible.Respects.get_bind (fun s t h => ?_) fun s => ?_
  · rw [h.position_eq, h.currentToken]
  split_ifs
  · exact Fallible.Respects.fail _ fun _ _ h => h
  · exact (submit_respects _ _).bind fun _ => (Fallible.Respects.foldRange fun _ hl _ =>
      enqueueLayer_respects _ _ hl).bind fun _ => (submit_respects _ _).bind fun _ =>
        (call_respects _).bind fun _ => (hlogits _).bind fun _ =>
          Fallible.Respects.modify _ fun _ _ h => ⟨h.stream_eq, Decoder.State.ext
            (congrArg (· + 1) h.position_eq) h.rows_eq h.logits_eq, h.currentToken⟩

theorem decodeOne_respects (token : UInt32) :
    Fallible.Respects Alike (decodeOne token : Fallible (Session rt) NnisError (List F32))
      Alike Alike := by
  have hwork : Fallible.Respects Alike (do
        call .uploadToken
        Fallible.modify (writeToken token)
        enqueueCurrentToken : Fallible (Session rt) NnisError PUnit) Alike Alike :=
    (call_respects _).bind fun _ => (Fallible.Respects.modify (writeToken token)
      fun _ _ h => ⟨h.stream_eq, h.core_eq, rfl⟩).bind fun _ =>
        enqueueCurrentToken_respects.conseq (fun _ _ h => h) (fun _ _ h => h.alike)
          fun _ _ h => h.alike
  refine (Fallible.Respects.ofExcept _ (fun _ _ h => h) fun _ _ h => h).bind fun _ =>
    Fallible.Respects.get_bind (fun s t h => ?_) fun s => ?_
  · rw [h.position_eq]
    rfl
  split_ifs
  · exact Fallible.Respects.fail _ fun _ _ h => h
  · exact hwork.attempt.bind fun r => (finish_respects r).bind fun _ => readLogits_respects

theorem rewindTo_respects (position : ℕ) :
    Fallible.Respects Alike (rewindTo position : Fallible (Session rt) NnisError PUnit)
      Alike Alike :=
  (call_respects _).bind fun _ => (onCache_respects (KvCache.truncate_respects position)).bind
    fun _ => Fallible.Respects.modify _ fun _ _ h =>
      ⟨h.stream_eq, Decoder.State.ext rfl h.rows_eq h.logits_eq, trivial⟩

theorem teacherForcedLogits_respects (currentLogits : List F32) (draft : SpeculativeDraftV1)
    (schedule : ConfidenceScheduleV1) :
    Fallible.Respects Alike
      (teacherForcedLogits currentLogits draft schedule :
        Fallible (Session rt) NnisError (List F32)) Alike Alike := by
  refine Fallible.Respects.foldEach fun token rows => (decodeOne_respects token).bind
    fun logits => ?_
  split_ifs
  · exact Fallible.Respects.fail _ fun _ _ h => h
  · exact Fallible.Respects.pure _ fun _ _ h => h

theorem speculativeStep_respects (startPosition : ℕ) (currentLogits : List F32)
    (draft : SpeculativeDraftV1) (schedule : ConfidenceScheduleV1)
    (stats : SpeculativeAcceptanceStatsV1) :
    Fallible.Respects Alike
      (speculativeStep startPosition currentLogits draft schedule stats :
        Fallible (Session rt) NnisError _) Alike Alike := by
  refine (teacherForcedLogits_respects _ _ _).bind fun _ =>
    (Fallible.Respects.ofExcept _ (fun _ _ h => h) fun _ _ h => h).bind fun verification =>
      (Fallible.Respects.ofExcept _ (fun _ _ h => h) fun _ _ h => h).bind fun _ =>
        (rewindTo_respects _).bind fun _ => ?_
  cases verification.emittedTokens.getLast? with
  | none => exact Fallible.Respects.fail _ fun _ _ h => h
  | some emitted =>
    exact (decodeOne_respects emitted).bind fun _ => Fallible.Respects.pure _ fun _ _ h => h

/-- Verification returns the same result from sessions that are alike, and leaves them alike. -/
theorem verifyGreedyDraft_respects (draft : SpeculativeDraftV1) (schedule : ConfidenceScheduleV1)
    (stats : SpeculativeAcceptanceStatsV1) :
    Fallible.Respects Alike
      (verifyGreedyDraft draft schedule stats : Fallible (Session rt) NnisError _)
      Alike Alike := by
  refine Fallible.Respects.get_bind (fun s t h => ?_) fun s =>
    (Fallible.Respects.ofExcept _ (fun _ _ h => h) fun _ _ h => h).bind fun _ =>
      ((call_respects _).bind fun _ => readLogits_respects).bind fun _ =>
        (speculativeStep_respects _ _ _ _ _).attempt.bind fun step => ?_
  · have hvalid : validateDraft s draft schedule = validateDraft t draft schedule := by
      rw [validateDraft, validateDraft, h.position_eq]
      rfl
    rw [h.position_eq, hvalid]
  · cases step with
    | ok _ => exact Fallible.Respects.pure _ fun _ _ h => h
    | error e =>
      refine (rewindTo_respects _).attempt.bind fun rewound => ?_
      cases rewound with
      | ok _ => exact Fallible.Respects.fail _ fun _ _ h => h
      | error _ => exact Fallible.Respects.fail _ fun _ _ h => h

end Session

end NNIS
