import NNIS.Model.F16ReferenceRuntime
import NNIS.Model.Runtime
import NNIS.Model.SessionVerify

/-!
# Runs of a session

A run applies operations one after the other, each answered by an environment of its own that may
refuse any call. Every operation keeps a session aligned unless a call is refused in the middle of a
token: the layers before that call have then taken a row that no position accounts for, and only
`verifyGreedyDraft` cuts them back.

## Main definitions

* `DecodeOp`, `SessionOp`, `SessionOp.step`, `SessionOp.run`.
* `SessionOp.Intact` — no token has been left half encoded in a step.

## Main results

* `SessionOp.aligned_run` — a run that leaves no token half encoded keeps a session aligned.
* `sessions_lenEqPosition` — such a run keeps one row for each position.
-/

set_option autoImplicit false

namespace NNIS

namespace Session

variable {V : Type} {rt : Pipeline V} {α β : Type}

/-! ### Computations that keep a session aligned -/

/-- An aligned session stays aligned, or the computation fails with a call refused in the middle of
a token. -/
def Keeps (m : Fallible (Session rt) NnisError α) : Prop :=
  Fallible.Spec Aligned m (fun _ => Aligned) fun _ s => s.Aligned ∨ s.stream.Refused midToken

/-- The session when a computation has ended with a result. -/
def Kept (r : Except NnisError α) (s : Session rt) : Prop :=
  match r with
  | .ok _ => s.Aligned
  | .error _ => s.Aligned ∨ s.stream.Refused midToken

namespace Keeps

variable {m : Fallible (Session rt) NnisError α} {f : α → Fallible (Session rt) NnisError β}

theorem pure (a : α) : Keeps (Pure.pure a : Fallible (Session rt) NnisError α) :=
  Fallible.Spec.pure a fun _ hs => hs

theorem ofExcept (r : Except NnisError α) :
    Keeps (Fallible.ofExcept r : Fallible (Session rt) NnisError α) :=
  Fallible.Spec.ofExcept (fun _ _ _ hs => hs) fun _ _ _ hs => Or.inl hs

theorem get : Keeps (Fallible.get : Fallible (Session rt) NnisError (Session rt)) :=
  Fallible.Spec.get fun _ hs => hs

theorem modify {g : Session rt → Session rt} (hg : ∀ s, (g s).core = s.core) :
    Keeps (Fallible.modify g) :=
  Fallible.Spec.modify g fun s hs => hs.of_core_eq (hg s)

theorem bind (hm : Keeps m) (hf : ∀ a, Keeps (f a)) : Keeps (m >>= f) := Fallible.Spec.bind hm hf

theorem foldRange {n : ℕ} {a : α} {body : ℕ → α → Fallible (Session rt) NnisError α}
    (h : ∀ i b, Keeps (body i b)) : Keeps (Fallible.foldRange n a body) :=
  Fallible.Spec.foldRange (fun _ _ => Aligned) n a fun i _ b => h i b

theorem forEach {ι : Type} {l : List ι} {body : ι → Fallible (Session rt) NnisError PUnit}
    (h : ∀ x, Keeps (body x)) : Keeps (Fallible.forEach l body) :=
  Fallible.Spec.forEach (fun _ => Aligned) l fun x _ => h x

theorem call (site : CallSite) : Keeps (call site : Fallible (Session rt) NnisError PUnit) :=
  have hany : ∀ ok, anyCall (site, ok) := fun _ => trivial
  Fallible.Spec.of_forall fun s₀ ha =>
    (s₀.call_spec site (fun _ => true) hany rfl).conseq (fun _ hs => hs)
      (fun _ _ hs => hs.aligned ha) fun _ _ hs => Or.inl (hs.1.aligned ha)

theorem attempt (hm : Keeps m) :
    Fallible.Spec Aligned m.attempt Kept fun _ s => s.Aligned ∨ s.stream.Refused midToken :=
  Fallible.Spec.attempt hm

theorem finish (r : Except NnisError α) :
    Fallible.Spec (Kept r) (finish r : Fallible (Session rt) NnisError α) (fun _ => Aligned)
      fun _ s => s.Aligned ∨ s.stream.Refused midToken := by
  have hr : Fallible.Spec (Kept r) (Fallible.ofExcept r : Fallible (Session rt) NnisError α)
      (fun _ => Aligned) fun _ s => s.Aligned ∨ s.stream.Refused midToken := by
    refine Fallible.Spec.ofExcept (fun a ha s hs => ?_) fun e he s hs => ?_
    · rw [ha] at hs
      exact hs
    · rw [he] at hs
      exact hs
  refine (attempt_finish_spec hr).conseq (fun _ hs => hs) ?_ ?_
  · rintro - s ⟨s₁, hs₁, hs⟩
    exact hs.aligned hs₁
  · rintro - s (⟨s₁, hs₁, hs⟩ | ⟨-, s₁, hs₁, hs, -⟩)
    · exact hs₁.imp hs.aligned hs.since.refused
    · exact Or.inl (hs.aligned hs₁)

/-- Work that is submitted and waited for. -/
theorem awaited {f : α → Fallible (Session rt) NnisError β} (hm : Keeps m)
    (hf : ∀ a, Keeps (f a)) :
    Keeps (m.attempt >>= fun r => Session.finish r >>= f) :=
  Fallible.Spec.bind hm.attempt fun r => Fallible.Spec.bind (finish r) hf

end Keeps

theorem enqueueCurrentToken_keeps :
    Keeps (enqueueCurrentToken : Fallible (Session rt) NnisError PUnit) :=
  Fallible.Spec.of_forall fun s₀ ha => (enqueueCurrentToken_spec s₀).conseq (fun _ hs => hs)
    (fun _ s hs => by
      have hdecoded : Decoded s₀.currentToken s₀ s := ⟨hs.since, hs.heads_eq, hs.core_eq⟩
      exact hdecoded.aligned ha)
    fun _ _ hs => hs.aligned ha

theorem readLogits_keeps : Keeps (readLogits : Fallible (Session rt) NnisError (List F32)) :=
  (Keeps.call _).bind fun _ => Keeps.get.bind fun _ => Keeps.pure _

theorem reset_keeps : Keeps (reset : Fallible (Session rt) NnisError PUnit) :=
  Fallible.Spec.of_forall fun s₀ ha => s₀.reset_spec.conseq (fun _ hs => hs)
    (fun _ _ hs => aligned_of_cut_zero hs.2) fun _ _ hs => Or.inl (hs.aligned ha)

theorem enqueuePrefill_keeps (inputIds : List UInt32) :
    Keeps (enqueuePrefill inputIds : Fallible (Session rt) NnisError PUnit) :=
  Keeps.forEach fun x => (Keeps.call _).bind fun _ =>
    (Keeps.modify (g := writeToken x.1) fun _ => rfl).bind fun _ => enqueueCurrentToken_keeps

theorem prefill_keeps (inputIds : List UInt32) :
    Keeps (prefill inputIds : Fallible (Session rt) NnisError (List F32)) :=
  (Keeps.ofExcept _).bind fun _ => reset_keeps.bind fun _ => (Keeps.call _).bind fun _ =>
    (enqueuePrefill_keeps inputIds).awaited fun _ => readLogits_keeps

theorem decodeOne_keeps (token : UInt32) :
    Keeps (decodeOne token : Fallible (Session rt) NnisError (List F32)) :=
  Fallible.Spec.of_forall fun s₀ ha => (decodeOne_spec token s₀).conseq (fun _ hs => hs)
    (fun _ _ hs => hs.1.aligned ha) fun _ _ hs => hs.aligned ha

theorem enqueueTopOne_keeps : Keeps (enqueueTopOne : Fallible (Session rt) NnisError PUnit) :=
  (Keeps.call _).bind fun _ => Keeps.modify fun _ => rfl

theorem generateFixed_keeps (inputIds : List UInt32) (maxNewTokens : ℕ) :
    Keeps (generateFixed inputIds maxNewTokens : Fallible (Session rt) NnisError (List UInt32)) :=
  reset_keeps.bind fun _ => (Keeps.call _).bind fun _ => (Keeps.call _).bind fun _ =>
    Keeps.awaited ((enqueuePrefill_keeps inputIds).bind fun _ => Keeps.foldRange fun _ _ =>
      enqueueTopOne_keeps.bind fun _ => (Keeps.call _).bind fun _ => Keeps.get.bind fun _ =>
        enqueueCurrentToken_keeps.bind fun _ => Keeps.pure _)
      fun _ => (Keeps.call _).bind fun _ => Keeps.pure _

/-- One more round of the observed generation. A token that could not be submitted ends it. -/
theorem generateUntilEosLoop_keeps (eosTokenId : UInt32) (rounds : ℕ) (generated : List UInt32) :
    Keeps (generateUntilEosLoop eosTokenId rounds generated :
      Fallible (Session rt) NnisError (List UInt32)) := by
  induction rounds generalizing generated with
  | zero => exact Fallible.Spec.bind (Keeps.finish (.ok PUnit.unit)) fun _ => Keeps.pure _
  | succ rounds ih =>
    refine (enqueueTopOne_keeps.bind fun _ => Keeps.call _).awaited fun _ => Keeps.get.bind
      fun s => Fallible.Spec.bind enqueueCurrentToken_keeps.attempt fun r => ?_
    split_ifs with h₁ h₂
    · exact Fallible.Spec.bind (Keeps.finish r) fun _ => Keeps.pure _
    · exact Fallible.Spec.bind (Keeps.finish r) fun _ => ih _
    · cases r with
      | ok _ => exact ih _
      | error _ => exact absurd (Or.inr rfl) h₁

theorem generate_keeps (inputIds : List UInt32) (generation : GenerationConfig) :
    Keeps (generate inputIds generation : Fallible (Session rt) NnisError (List UInt32)) := by
  refine (Keeps.ofExcept _).bind fun _ => (Keeps.ofExcept _).bind fun _ => ?_
  cases generation.eosTokenId with
  | none => exact generateFixed_keeps inputIds _
  | some eosTokenId =>
    exact reset_keeps.bind fun _ => (Keeps.call _).bind fun _ =>
      (enqueuePrefill_keeps inputIds).awaited fun _ => generateUntilEosLoop_keeps _ _ _

/-- A verification is cut back to its start, unless that is refused too. -/
theorem VerifyFailed.aligned {s₀ s : Session rt} {draft : SpeculativeDraftV1}
    {schedule : ConfidenceScheduleV1} {stats : SpeculativeAcceptanceStatsV1}
    (h : VerifyFailed s₀ draft schedule stats s) (ha : s₀.Aligned) :
    s.Aligned ∨ (s.stream.Refused midToken ∧ s.stream.Refused rewindSite) := by
  cases h with
  | rejected session _ => exact Or.inl (session ▸ ha)
  | unread called _ => exact Or.inl (called.aligned ha)
  | rewound s₁ failed _ core_eq =>
    refine Or.inl fun l hl => ?_
    rw [core_eq]
    show ((s₁.cache.rows l).take s₀.position).length = s₀.position
    have hle := (failed.rows_prefix l).length_le
    rw [KvCache.length_rows, ha.rowCount_eq hl] at hle
    rw [List.length_take, Nat.min_eq_left hle]
  | lost s₁ failed called refused =>
    exact failed.aligned.imp called.aligned fun hr => ⟨called.since.refused hr, refused.1⟩

end Session

/-! ### Runs -/

/-- The operations that the sessions of both runtimes have. -/
inductive DecodeOp
  | prefill (inputIds : List UInt32)
  | decodeOne (token : UInt32)
  | generate (inputIds : List UInt32) (generation : GenerationConfig)
  | reset

/-- The operations of a session of the F32 runtime. -/
inductive SessionOp
  | decode (op : DecodeOp)
  | verifyGreedyDraft (draft : SpeculativeDraftV1) (schedule : ConfidenceScheduleV1)
      (stats : SpeculativeAcceptanceStatsV1)

section Runs

variable {V : Type} {rt : Pipeline V}

/-- The session at the start of an operation, before any call of it. -/
def Session.onDriver (driver : Driver) (s : Session rt) : Session rt := s.withStream ⟨driver, []⟩

/-- The session after an operation, whatever it has returned. -/
def DecodeOp.step (op : DecodeOp) (driver : Driver) (s : Session rt) : Session rt :=
  match op with
  | prefill inputIds => ((Session.prefill inputIds).run (s.onDriver driver)).2
  | decodeOne token => ((Session.decodeOne token).run (s.onDriver driver)).2
  | generate inputIds generation =>
    ((Session.generate inputIds generation).run (s.onDriver driver)).2
  | reset => (Session.reset.run (s.onDriver driver)).2

/-- The session after an operation, whatever it has returned. -/
def SessionOp.step (op : SessionOp) (driver : Driver) (s : Session rt) : Session rt :=
  match op with
  | decode op => op.step driver s
  | verifyGreedyDraft draft schedule stats =>
    ((Session.verifyGreedyDraft draft schedule stats).run (s.onDriver driver)).2

/-- The session after the operations of a run. -/
def SessionOp.run (steps : List (SessionOp × Driver)) (s : Session rt) : Session rt :=
  steps.foldl (fun s x => x.1.step x.2 s) s

/-- No token has been left half encoded: no call has been refused in the middle of a token, or the
rewind of a verification was accepted. -/
def SessionOp.Intact (op : SessionOp) (driver : Driver) (s : Session rt) : Prop :=
  match op with
  | decode op => ¬ (op.step driver s).stream.Refused Session.midToken
  | verifyGreedyDraft draft schedule stats =>
    ¬ (((verifyGreedyDraft draft schedule stats).step driver s).stream.Refused Session.midToken ∧
      ((verifyGreedyDraft draft schedule stats).step driver s).stream.Refused Session.rewindSite)

/-- Every step of a run is intact. -/
def SessionOp.IntactRun : List (SessionOp × Driver) → Session rt → Prop
  | [], _ => True
  | (op, driver) :: steps, s => op.Intact driver s ∧ IntactRun steps (op.step driver s)

theorem Session.Keeps.aligned {α : Type} {m : Fallible (Session rt) NnisError α}
    (hm : Session.Keeps m) {driver : Driver} {s : Session rt} (ha : s.Aligned)
    (h : ¬ (m.run (s.onDriver driver)).2.stream.Refused Session.midToken) :
    (m.run (s.onDriver driver)).2.Aligned := by
  have hpost := hm (s.onDriver driver) ha
  generalize m.run (s.onDriver driver) = outcome at h hpost
  rcases outcome with ⟨e | a, s'⟩
  · exact hpost.resolve_right h
  · exact hpost

theorem DecodeOp.aligned_step (op : DecodeOp) {driver : Driver} {s : Session rt} (ha : s.Aligned)
    (h : ¬ (op.step driver s).stream.Refused Session.midToken) : (op.step driver s).Aligned := by
  cases op with
  | prefill inputIds => exact (Session.prefill_keeps inputIds).aligned ha h
  | decodeOne token => exact (Session.decodeOne_keeps token).aligned ha h
  | generate inputIds generation => exact (Session.generate_keeps inputIds generation).aligned ha h
  | reset => exact Session.reset_keeps.aligned ha h

/-- An intact step keeps a session aligned. -/
theorem SessionOp.aligned_step (op : SessionOp) {driver : Driver} {s : Session rt}
    (ha : s.Aligned) (h : op.Intact driver s) : (op.step driver s).Aligned := by
  cases op with
  | decode op => exact op.aligned_step ha h
  | verifyGreedyDraft draft schedule stats =>
    have hpost := (s.onDriver driver).verifyGreedyDraft_spec draft schedule stats ha _ rfl
    simp only [Intact, step] at h ⊢
    generalize (Session.verifyGreedyDraft draft schedule stats).run (s.onDriver driver) =
      outcome at h hpost
    rcases outcome with ⟨e | r, s'⟩
    · exact (Session.VerifyFailed.aligned hpost ha).resolve_right h
    · exact (Session.aligned_of_advance hpost.2.2.core_eq ha : s'.Aligned)

/-- A run of intact steps keeps a session aligned. -/
theorem SessionOp.aligned_run (steps : List (SessionOp × Driver)) {s : Session rt}
    (ha : s.Aligned) (h : IntactRun steps s) : (SessionOp.run steps s).Aligned := by
  induction steps generalizing s with
  | nil => exact ha
  | cons x steps ih => exact ih (x.1.aligned_step ha h.1) h.2

theorem Session.aligned_new {stream : Stream} {keys values : List V} {logits : List F32}
    {currentToken : UInt32} (hkeys : keys.length = rt.config.cache.elementsPerSide)
    (hvalues : values.length = rt.config.cache.elementsPerSide)
    (hlogits : logits.length = rt.config.vocabSize) :
    (Session.new stream keys values logits currentToken hkeys hvalues hlogits).Aligned := by
  intro l hl
  show (KvCache.rows _ l).length = 0
  rw [KvCache.length_rows]
  exact (KvCache.rowCount_fillLengths
    (KvCache.ofAllocations stream keys values hkeys hvalues) (Nat.zero_le _) l).trans (if_pos hl)

/-- Every layer holds `position` rows, and a decode that returns adds the row at `position` to every
layer, so that its attention reads `position + 1` rows there. -/
def Session.LenEqPosition (s : Session rt) : Prop :=
  ∀ l < rt.config.numHiddenLayers, s.cache.len l = .ok s.position ∧
    ∀ token driver logits s', (Session.decodeOne token).run (s.onDriver driver) = (.ok logits, s') →
      s'.core = rt.decoder.step token s.core ∧
        ∃ row, s'.cache.rows l = s.cache.rows l ++ [row] ∧
          (s'.cache.rows l).length = s.position + 1

theorem Session.Aligned.lenEqPosition {s : Session rt} (ha : s.Aligned) : s.LenEqPosition := by
  intro l hl
  refine ⟨?_, fun token driver logits s' hrun => ?_⟩
  · rw [s.cache.len_eq hl, ha.rowCount_eq hl]
  · have hdecoded := ((Session.decodeOne_spec token (s.onDriver driver)).ok rfl hrun).1
    obtain ⟨row, hrow⟩ := rt.decoder.rows_step token s.core l
    have hrows : s'.cache.rows l = s.cache.rows l ++ [row] :=
      (congrArg (fun c => c.rows l) hdecoded.core_eq).trans (hrow.trans (if_pos hl))
    refine ⟨hdecoded.core_eq, row, hrows, ?_⟩
    rw [hrows, List.length_append, List.length_singleton, KvCache.length_rows, ha.rowCount_eq hl]

instance (op : SessionOp) (driver : Driver) (s : Session rt) : Decidable (op.Intact driver s) :=
  match op with
  | .decode op => inferInstanceAs (Decidable ¬ (op.step driver s).stream.Refused _)
  | .verifyGreedyDraft draft schedule stats => inferInstanceAs (Decidable ¬
    (((SessionOp.verifyGreedyDraft draft schedule stats).step driver s).stream.Refused _ ∧
      ((SessionOp.verifyGreedyDraft draft schedule stats).step driver s).stream.Refused _))

instance SessionOp.decidableIntactRun :
    (steps : List (SessionOp × Driver)) → (s : Session rt) → Decidable (IntactRun steps s)
  | [], _ => .isTrue trivial
  | (op, driver) :: steps, s =>
    have := decidableIntactRun steps (op.step driver s)
    inferInstanceAs (Decidable (op.Intact driver s ∧ IntactRun steps (op.step driver s)))

end Runs

/-- In every run of intact steps from a new session every layer holds `position` rows. The sessions
of the F16 reference runtime run the operations that both runtimes have. -/
theorem sessions_lenEqPosition (stream : Stream) (logits : List F32) (currentToken : UInt32) :
    (∀ (model : Model) (keys values : List F32)
      (hkeys : keys.length = model.pipeline.config.cache.elementsPerSide)
      (hvalues : values.length = model.pipeline.config.cache.elementsPerSide)
      (hlogits : logits.length = model.pipeline.config.vocabSize)
      (steps : List (SessionOp × Driver)) (s₀ : InferenceSession model),
      s₀ = .new stream keys values logits currentToken hkeys hvalues hlogits →
        SessionOp.IntactRun steps s₀ → (SessionOp.run steps s₀).LenEqPosition) ∧
    ∀ (model : F16ReferenceModel) (keys values : List UInt16)
      (hkeys : keys.length = model.pipeline.config.cache.elementsPerSide)
      (hvalues : values.length = model.pipeline.config.cache.elementsPerSide)
      (hlogits : logits.length = model.pipeline.config.vocabSize)
      (steps : List (DecodeOp × Driver)) (s₀ : F16ReferenceSession model),
      s₀ = .new stream keys values logits currentToken hkeys hvalues hlogits →
        SessionOp.IntactRun (steps.map fun x => (.decode x.1, x.2)) s₀ →
          (SessionOp.run (steps.map fun x => (.decode x.1, x.2)) s₀).LenEqPosition := by
  refine ⟨fun model keys values hkeys hvalues hlogits steps s₀ hs₀ h => ?_,
    fun model keys values hkeys hvalues hlogits steps s₀ hs₀ h => ?_⟩
  · have ha : s₀.Aligned := hs₀ ▸ Session.aligned_new hkeys hvalues hlogits
    exact (SessionOp.aligned_run steps ha h).lenEqPosition
  · have ha : s₀.Aligned := hs₀ ▸ Session.aligned_new hkeys hvalues hlogits
    exact (SessionOp.aligned_run _ ha h).lenEqPosition

/-- The session of the small model after the prompt `[1]`, at the start of an operation. -/
def prefilledSession (driver : Driver) : InferenceSession alternating :=
  (DecodeOp.step (.prefill [1]) (fun _ _ => none) alternatingSession).onDriver driver

/-- A prefill, a decode refused at its upload and another one that returns. -/
theorem sessions_lenEqPosition_alternating :
    (SessionOp.run [(.decode (.prefill [1]), fun _ _ => none),
      (.decode (.decodeOne 0), refusing .uploadToken),
      (.decode (.decodeOne 0), fun _ _ => none)] alternatingSession).LenEqPosition :=
  (sessions_lenEqPosition .accepting (List.replicate 2 default) 0).1 alternating
    (List.replicate 16 default) (List.replicate 16 default) List.length_replicate
    List.length_replicate List.length_replicate _ alternatingSession rfl (by decide)

/-- A decode whose attention is refused leaves a row behind. -/
theorem not_lenEqPosition_of_refused_attention :
    ¬ (SessionOp.run [(.decode (.prefill [1]), fun _ _ => none),
      (.decode (.decodeOne 0), refusing (.launch (.output 0) 0))]
        alternatingSession).LenEqPosition := by
  intro h
  have hlen := (h 0 Nat.one_pos).1
  revert hlen
  decide

end NNIS
