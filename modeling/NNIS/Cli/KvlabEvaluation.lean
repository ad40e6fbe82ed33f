import NNIS.Cli.KvlabRequest
import NNIS.Model.Runtime
import NNIS.Model.TeacherForcing

/-!
# Teacher-forced evaluation

The execution of a KVLab request (`execute_request` of `nnis-kvlab-backend.rs` and
`nnis-kvlab-backend-v4.rs`) on a new session of the loaded model. The input is prefilled, a
candidate is compacted to its retained rows, and the first evaluation token, the bridge, is decoded.
Every other evaluation token is first scored against the logits at hand and then decoded, except the
last one, which is only scored.

Both versions evaluate in the same way, and differ in what they check before. The model is already
loaded, and the text of the artifact is not rendered here.

## Main definitions

* `Kvlab.scoreLogits`, `Kvlab.evaluate`.
* `Kvlab.admitV4`, `Kvlab.runV4`, `Kvlab.admitV3`, `Kvlab.runV3`.
* `Kvlab.Scores` — steps that score the tokens after the first one, each on the logits after all
  tokens before it.

## Main results

* `Kvlab.evaluateTokens_eq` — the evaluation decodes a token and then scores the next one.
* `Kvlab.evaluation_correct`.
-/

set_option autoImplicit false

namespace NNIS

namespace Kvlab

/-! ### Scores -/

/-- The state of the scan over the logits. -/
structure LogitScan where
  maximum : F64
  top1Index : ℕ
  top1Value : F32

def scanLogit (scan : LogitScan) (entry : F32 × ℕ) : Except String LogitScan :=
  let (value, index) := entry
  if value.isFinite = false then .error s!"logit {index} is non-finite"
  else
    let maximum := scan.maximum.max (value.convert binary64)
    if scan.top1Value.lt value then .ok { maximum, top1Index := index, top1Value := value }
    else .ok { scan with maximum }

/-- The sum of a list, from the zero that is neutral. -/
def sumF64 (values : List F64) : F64 := values.foldl Binary.add (.zero true)

/-- The negative log-likelihood of a target and the first best token. -/
def scoreLogits (platform : Platform) (logits : List F32) (target : UInt32) :
    Except String (F64 × UInt32) :=
  if logits = [] then .error "NNIS returned empty logits"
  else if logits.length ≤ target.toNat then
    .error s!"target token {target} is outside logits width {logits.length}"
  else do
    let scan ← logits.zipIdx.foldlM scanLogit ⟨.infinite true, 0, .infinite true⟩
    let sumExp := sumF64 (logits.map fun value =>
      platform.exp ((value.convert binary64).sub scan.maximum))
    if sumExp.isFinite = false ∨ sumExp.le (.zero false) = true then
      .error "log-sum-exp normalization is invalid"
    else
      let logSumExp := scan.maximum.add (platform.ln sumExp)
      let nll := logSumExp.sub ((logits.getD target.toNat (.zero false)).convert binary64)
      if nll.isFinite = false ∨ nll.lt (.zero false) = true then
        .error "target negative log-likelihood is invalid"
      else if scan.top1Index < 2 ^ 32 then .ok (nll, UInt32.ofNat scan.top1Index)
      else .error "logits width exceeds u32 token-id range"

@[ext]
structure ScoreStep where
  targetTokenId : UInt32
  top1TokenId : UInt32
  targetNll : F64

/-- The mean score and the share of targets that are the best token. -/
def metrics (steps : List ScoreStep) : Except String (F64 × F64) :=
  let count : F64 := Binary.ofNat steps.length
  let meanNll := (sumF64 (steps.map ScoreStep.targetNll)).div count
  let hits := steps.countP fun step => step.targetTokenId == step.top1TokenId
  let tokenAccuracy := (Binary.ofNat hits : F64).div count
  if meanNll.isFinite = false ∨ tokenAccuracy.isFinite = false then
    .error "evaluation produced non-finite metrics"
  else .ok (meanNll, tokenAccuracy)

/-! ### Evaluation -/

section Evaluation

variable {V : Type} {rt : Pipeline V}

/-- What an evaluation hands to the rendering of its artifact and of its response. -/
structure Evaluation where
  positionAfterSelection : ℕ
  bridgeTokenId : UInt32
  steps : List ScoreStep
  meanNll : F64
  tokenAccuracy : F64

variable (score : List F32 → UInt32 → Except String (F64 × UInt32))

/-- Decode a token, with the message of a failure. -/
def decodeAs (failure : String) (token : UInt32) : Fallible (Session rt) String (List F32) :=
  (Session.decodeOne token).mapError fun error => s!"{failure}: {error.text}"

/-- One round of the loop over the targets: score the target on the logits at hand, and decode it
unless it is the last of all `count` evaluation tokens. -/
def scoreRound (count : ℕ) (target : UInt32 × ℕ) (state : List F32 × List ScoreStep) :
    Fallible (Session rt) String (List F32 × List ScoreStep) := do
  let (nll, top1) ← Fallible.ofExcept (score state.1 target.1)
  let steps := state.2 ++ [{ targetTokenId := target.1, top1TokenId := top1, targetNll := nll }]
  if target.2 + 2 < count then do
    let logits ← decodeAs "NNIS teacher-forced decode failed" target.1
    return (logits, steps)
  else return (state.1, steps)

/-- Decode the bridge and score the other evaluation tokens. -/
def evaluateTokens (bridge : UInt32) (targets : List UInt32) :
    Fallible (Session rt) String (List ScoreStep) := do
  let logits ← decodeAs "NNIS bridge decode failed" bridge
  let (_, steps) ← Fallible.foldEach targets.zipIdx (logits, [])
    (scoreRound score (targets.length + 1))
  return steps

/-- Compact the rows of a candidate. -/
def selectRetained (contents : ℕ → ℕ → V) (mode : String) (rows : List ℕ) :
    Fallible (Session rt) String PUnit :=
  if mode = "candidate" then
    (Session.compactKvCacheRows contents rows).mapError fun error =>
      s!"NNIS KV compaction failed: {error.text}"
  else pure ⟨⟩

/-- The evaluation of a request with its retained rows; `contents` are those of the memory that a
compaction allocates. -/
def evaluate (contents : ℕ → ℕ → V) (request : Request) (rows : List ℕ) :
    Fallible (Session rt) String Evaluation := do
  let _ ← (Session.prefill request.modelInputTokenIds).mapError fun error =>
    s!"NNIS prefill failed: {error.text}"
  selectRetained contents request.mode rows
  let session ← Fallible.get
  let positionAfterSelection := session.position
  if positionAfterSelection ≠ request.modelInputTokenIds.length then
    Fallible.fail (s!"logical position changed across selection: expected " ++
      s!"{request.modelInputTokenIds.length}, got {positionAfterSelection}")
  else do
    let bridge := request.evaluationTokenIds.getD 0 0
    let steps ← evaluateTokens score bridge request.evaluationTokenIds.tail
    let (meanNll, tokenAccuracy) ← Fallible.ofExcept (metrics steps)
    return { positionAfterSelection, bridgeTokenId := bridge, steps, meanNll, tokenAccuracy }

/-! ### Execution -/

/-- Both token lists of a request are in the vocabulary. -/
def validateModelTokenRange (request : Request) (vocabSize : ℕ) : Except String Unit :=
  [("model_input_token_ids", request.modelInputTokenIds),
    ("evaluation_token_ids", request.evaluationTokenIds)].forM fun (field, tokens) =>
      match tokens.find? fun token => vocabSize ≤ token.toNat with
      | some token =>
        .error s!"{field} contains token id {token} outside model vocabulary 0..{vocabSize}"
      | none => .ok ⟨⟩

/-- The digest of the local checkpoint file is that of the specification. -/
def validateLocalCheckpointArtifact (modelSha256 : Except String String)
    (spec : ExactDecoderCheckpointSpec) : Except String Unit := do
  let actual ← modelSha256
  if actual ≠ spec.sourceModelSha256 then
    .error (s!"local model.safetensors SHA-256 mismatch for {spec.name}: got {actual}, expected " ++
      s!"{spec.sourceModelSha256}")
  else .ok ⟨⟩

def exactCheckpointKvBytesPerToken (spec : ExactDecoderCheckpointSpec) : Except String ℕ :=
  if spec.numAttentionHeads = 0 ∨ spec.hiddenSize % spec.numAttentionHeads ≠ 0 then
    .error s!"exact checkpoint {spec.name} has invalid attention geometry for KV accounting"
  else
    let headDim := spec.hiddenSize / spec.numAttentionHeads
    [spec.numHiddenLayers, spec.numKeyValueHeads, headDim, 2, 4].foldlM
      (fun product factor =>
        okOr s!"exact checkpoint {spec.name} KV byte accounting overflows u64"
          (checkedMul product factor)) 1

/-- What the v4 backend finds where it runs: the digest of the local checkpoint file, and whether
the configuration of the loaded model is that of a specification. -/
structure Host where
  modelSha256 : Except String String
  validateConfig : ExactDecoderCheckpointSpec → Except NnisError Unit

/-- The checks of `execute_request` of the v4 backend, all made before there is a session. -/
def admitV4 (platform : Platform) (host : Host) (config : ModelConfig) (args : Args)
    (request : RequestV4) : Except String Unit := do
  let checkpointSpec ← exactCheckpointSpec platform args
  validateLocalCheckpointArtifact host.modelSha256 checkpointSpec
  let expectedBytesPerToken ← exactCheckpointKvBytesPerToken checkpointSpec
  if request.bytesPerToken ≠ expectedBytesPerToken then
    .error (s!"request bytes_per_token {request.bytesPerToken} does not match NNIS f32 KV cache " ++
      s!"geometry for {checkpointSpec.name}: expected {expectedBytesPerToken}")
  else do
    (host.validateConfig checkpointSpec).mapError fun error =>
      s!"loaded model does not satisfy exact checkpoint {checkpointSpec.name}: {error.text}"
    validateModelTokenRange request.toRequest config.vocabSize
    let required ← requiredPositions request.toRequest
    if config.maxPositionEmbeddings < required then
      .error (s!"model input plus decoded evaluation requires {required} logical positions but " ++
        s!"model capacity is {config.maxPositionEmbeddings}")
    else .ok ⟨⟩

/-- The checks of `execute_request` of the v3 backend. They count a position for every evaluation
token, one more than the evaluation takes. -/
def admitV3 (config : ModelConfig) (request : RequestV3) : Except String Unit := do
  validateModelTokenRange request.toRequest config.vocabSize
  let requestedPositions ← okOr "model input plus evaluation length overflows usize"
    (checkedAdd request.modelInputTokenIds.length request.evaluationTokenIds.length)
  if config.maxPositionEmbeddings < requestedPositions then
    .error (s!"model input plus evaluation requires {requestedPositions} logical positions but " ++
      s!"model capacity is {config.maxPositionEmbeddings}")
  else .ok ⟨⟩

/-- The v4 backend: a request is validated and executed. -/
def runV4 (platform : Platform) (host : Host) (contents : ℕ → ℕ → V) (args : Args)
    (request : RequestV4) : Fallible (Session rt) String Evaluation := do
  Fallible.ofExcept (validateRequestV4 platform args request)
  Fallible.ofExcept (admitV4 platform host rt.config args request)
  evaluate (scoreLogits platform) contents request.toRequest request.retainedPositions

/-- The v3 backend. -/
def runV3 (platform : Platform) (contents : ℕ → ℕ → V) (args : Args) (request : RequestV3) :
    Fallible (Session rt) String Evaluation := do
  Fallible.ofExcept (validateRequestV3 platform args request)
  Fallible.ofExcept (admitV3 rt.config request)
  evaluate (scoreLogits platform) contents request.toRequest (retainedRows request)

/-! ### What an evaluation computes -/

/-- The decoder after the input restricted to the retained rows, followed by some tokens. -/
def teacherForced (rt : Pipeline V) (request : Request) (rows : List ℕ) (tokens : List UInt32) :
    Decoder.State (KvRow V) (List F32) :=
  (Session.deviceTarget rt).advance tokens
    ((Session.prompted rt request.modelInputTokenIds).select rows)

/-- The steps score all tokens but the first one, each on the logits after a state and all tokens
before it. -/
structure Scores (rt : Pipeline V) (c : Decoder.State (KvRow V) (List F32))
    (tokens : List UInt32) (steps : List ScoreStep) : Prop where
  targets_eq : steps.map ScoreStep.targetTokenId = tokens.tail
  scored : ∀ (i : ℕ) (step : ScoreStep), steps[i]? = some step →
    score ((Session.deviceTarget rt).advance (tokens.take (i + 1)) c).output step.targetTokenId =
      .ok (step.targetNll, step.top1TokenId)

/-- Decode a token, score the next one, and go on with that one. -/
def decodeThenScore : (failure : String) → (token : UInt32) → (targets : List UInt32) →
    List ScoreStep → Fallible (Session rt) String (List ScoreStep)
  | _, _, [], steps => pure steps
  | failure, token, target :: rest, steps => do
    let logits ← decodeAs failure token
    let (nll, top1) ← Fallible.ofExcept (score logits target)
    decodeThenScore "NNIS teacher-forced decode failed" target rest
      (steps ++ [{ targetTokenId := target, top1TokenId := top1, targetNll := nll }])

variable {score}

/-- From the loop over the targets to the recursion: with the logits of a token at hand, the loop
scores the next target and decodes it only when another one follows. -/
private theorem foldEach_scoreRound (failure : String) (token target : UInt32)
    (rest : List UInt32) (k : ℕ) (steps : List ScoreStep) :
    (decodeAs failure token >>= fun logits =>
      Fallible.foldEach ((target :: rest).zipIdx k) (logits, steps)
        (scoreRound score (k + rest.length + 2)) >>= fun state => pure state.2) =
      (decodeThenScore score failure token (target :: rest) steps :
        Fallible (Session rt) String (List ScoreStep)) := by
  induction rest generalizing failure token target k steps with
  | nil =>
    have hlast : ¬ k + 2 < k + ([] : List UInt32).length + 2 := by
      rw [List.length_nil]
      omega
    simp only [List.zipIdx_cons, List.zipIdx_nil, Fallible.foldEach, scoreRound, if_neg hlast,
      decodeThenScore, bind_assoc, pure_bind]
  | cons next rest ih =>
    have hmore : k + 2 < k + (next :: rest).length + 2 := by
      rw [List.length_cons]
      omega
    have hcount : k + (next :: rest).length + 2 = k + 1 + rest.length + 2 := by
      rw [List.length_cons]
      omega
    rw [decodeThenScore]
    refine bind_congr fun logits => ?_
    rw [List.zipIdx_cons, Fallible.foldEach, scoreRound]
    simp only [if_pos hmore, bind_assoc, pure_bind]
    refine bind_congr fun scored => ?_
    rw [hcount]
    exact ih _ target next (k + 1) _

/-- The evaluation decodes a token, scores the next one, and goes on with that one: it decodes
exactly the tokens before the last, and scores exactly the tokens after the first. -/
theorem evaluateTokens_eq (bridge : UInt32) {targets : List UInt32} (h : targets ≠ []) :
    (evaluateTokens score bridge targets : Fallible (Session rt) String (List ScoreStep)) =
      decodeThenScore score "NNIS bridge decode failed" bridge targets [] := by
  cases targets with
  | nil => exact absurd rfl h
  | cons target rest =>
    have hcount : (target :: rest).length + 1 = 0 + rest.length + 2 := by
      rw [List.length_cons]
      omega
    rw [← foldEach_scoreRound _ _ _ _ 0, ← hcount]
    rfl

/-! ### Triples -/

variable {driver : Driver} {c : Decoder.State (KvRow V) (List F32)}

theorem Scores.nil (token : UInt32) : Scores score rt c [token] [] :=
  ⟨rfl, fun _ _ h => nomatch h⟩

/-- One more token in front. -/
theorem scores_cons_iff {token target : UInt32} {rest : List UInt32} {step : ScoreStep}
    {steps : List ScoreStep} :
    Scores score rt c (token :: target :: rest) (step :: steps) ↔
      (step.targetTokenId = target ∧ score (rt.decoder.step token c).output target =
        .ok (step.targetNll, step.top1TokenId)) ∧
        Scores score rt (rt.decoder.step token c) (target :: rest) steps := by
  constructor
  · rintro ⟨htargets, hscored⟩
    obtain ⟨htarget, htargets⟩ := List.cons.inj htargets
    exact ⟨⟨htarget, htarget ▸ hscored 0 step rfl⟩, htargets,
      fun i step' hi => hscored (i + 1) step' hi⟩
  · rintro ⟨⟨htarget, hstep⟩, htargets, hscored⟩
    refine ⟨congrArg₂ List.cons htarget htargets, fun i step' hi => ?_⟩
    cases i with
    | zero =>
      obtain rfl := Option.some.inj hi
      exact htarget ▸ hstep
    | succ i => exact hscored i step' hi

/-- A score depends on the logits and the target only. -/
theorem Scores.unique {tokens : List UInt32} {steps steps' : List ScoreStep}
    (h : Scores score rt c tokens steps) (h' : Scores score rt c tokens steps') :
    steps = steps' := by
  have htargets := h.targets_eq.trans h'.targets_eq.symm
  have hlength : steps.length = steps'.length := by
    simpa only [List.length_map] using congrArg List.length htargets
  refine List.ext_getElem hlength fun i hi hi' => ?_
  have hstep := h.scored i steps[i] (List.getElem?_eq_getElem hi)
  have hstep' := h'.scored i steps'[i] (List.getElem?_eq_getElem hi')
  have htarget : steps[i].targetTokenId = steps'[i].targetTokenId := by
    have hget := congrArg (fun l => l[i]?) htargets
    simpa only [List.getElem?_map, List.getElem?_eq_getElem hi, List.getElem?_eq_getElem hi',
      Option.map_some, Option.some.injEq] using hget
  rw [htarget] at hstep
  obtain ⟨hnll, htop1⟩ := Prod.mk.inj (Except.ok.inj (hstep.symm.trans hstep'))
  exact ScoreStep.ext htarget htop1 hnll

theorem scores_ne_nil {token target : UInt32} {rest : List UInt32} {steps : List ScoreStep}
    (h : Scores score rt c (token :: target :: rest) steps) :
    ∃ step steps', steps = step :: steps' := by
  cases steps with
  | nil => exact nomatch h.targets_eq
  | cons step steps => exact ⟨step, steps, rfl⟩

/-- The recursion scores all targets, unless a call is refused or a score fails. -/
theorem decodeThenScore_holds (failure : String) (token : UInt32) (targets : List UInt32)
    (before : List ScoreStep) (hc : c.Fits rt.config.numHiddenLayers)
    (htokens : ∀ t ∈ token :: targets, t.toNat < rt.config.vocabSize)
    (hposition : c.position + targets.length ≤ rt.config.maxPositionEmbeddings) :
    Fallible.Spec (Session.Holds driver c)
      (decodeThenScore score failure token targets before :
        Fallible (Session rt) String (List ScoreStep))
      (fun steps s => ∃ new, steps = before ++ new ∧ Scores score rt c (token :: targets) new ∧
        Session.Holds driver ((Session.deviceTarget rt).advance (token :: targets).dropLast c) s)
      fun _ _ => ¬ (driver.Accepts ∧ ∃ new, Scores score rt c (token :: targets) new) := by
  induction targets generalizing failure token before c with
  | nil =>
    exact Fallible.Spec.pure _ fun s hs => ⟨[], (List.append_nil _).symm, .nil token, hs⟩
  | cons target rest ih =>
    rw [List.length_cons] at hposition
    have htoken := htokens token List.mem_cons_self
    have hstep := Session.fits_step hc token
    refine Fallible.Spec.bind (R := fun logits s =>
      Session.Holds driver (rt.decoder.step token c) s ∧
        logits = (rt.decoder.step token c).output)
      (Fallible.Spec.mapError ((Session.decodeOne_holds_of_fits hc htoken (by omega)).conseq
        (fun _ hs => hs) (fun _ _ hs => hs) fun _ _ hs ha => hs ha.1)) fun logits => ?_
    refine Fallible.Spec.of_forall fun s₁ ⟨hs₁, hlogits⟩ => ?_
    subst hlogits
    refine Fallible.Spec.bind (R := fun scored s =>
      score (rt.decoder.step token c).output target = .ok scored ∧
        Session.Holds driver (rt.decoder.step token c) s)
      (Fallible.Spec.ofExcept (fun scored hscored s hs => ⟨hscored, hs ▸ hs₁⟩)
        fun e he _ _ ⟨_, new, hnew⟩ => ?_) fun (nll, top1) =>
          Fallible.Spec.of_forall fun s₂ ⟨hscored, hs₂⟩ => ?_
    · obtain ⟨step, steps, rfl⟩ := scores_ne_nil hnew
      exact nomatch he.symm.trans (scores_cons_iff.1 hnew).1.2
    · have hcons (new : List ScoreStep) (hnew : Scores score rt (rt.decoder.step token c)
          (target :: rest) new) :
          Scores score rt c (token :: target :: rest) (⟨target, top1, nll⟩ :: new) :=
        scores_cons_iff.2 ⟨⟨rfl, hscored⟩, hnew⟩
      refine (ih _ target _ hstep (fun t ht => htokens t (List.mem_cons_of_mem _ ht)) ?_).conseq
        (fun s hs => hs ▸ hs₂) ?_ ?_
      · rw [rt.decoder.position_step token c]
        omega
      · rintro steps s ⟨new, rfl, hnew, hs⟩
        exact ⟨⟨target, top1, nll⟩ :: new, (List.append_cons _ _ _).symm, hcons new hnew, hs⟩
      · rintro e s hs ⟨ha, new, hnew⟩
        obtain ⟨step, steps, rfl⟩ := scores_ne_nil hnew
        exact hs ⟨ha, steps, (scores_cons_iff.1 hnew).2⟩

/-- The steps of a request and their metrics exist. -/
def Scorable (score : List F32 → UInt32 → Except String (F64 × UInt32)) (rt : Pipeline V)
    (request : Request) (rows : List ℕ) : Prop :=
  ∃ steps values, Scores score rt (teacherForced rt request rows []) request.evaluationTokenIds
    steps ∧ metrics steps = .ok values

/-- What an evaluation returns and leaves behind. -/
structure Evaluated (score : List F32 → UInt32 → Except String (F64 × UInt32))
    (request : Request) (rows : List ℕ) (evaluation : Evaluation) (s : Session rt) : Prop where
  /-- After the bridge all tokens are scored, in order. -/
  tokens_eq : request.evaluationTokenIds =
    evaluation.bridgeTokenId :: evaluation.steps.map ScoreStep.targetTokenId
  /-- Each is scored on the logits after the retained rows and all evaluation tokens before it. -/
  scored : ∀ (i : ℕ) (step : ScoreStep), evaluation.steps[i]? = some step →
    score (teacherForced rt request rows (request.evaluationTokenIds.take (i + 1))).output
      step.targetTokenId = .ok (step.targetNll, step.top1TokenId)
  metrics_eq : metrics evaluation.steps = .ok (evaluation.meanNll, evaluation.tokenAccuracy)
  positionAfterSelection_eq :
    evaluation.positionAfterSelection = request.modelInputTokenIds.length
  /-- All evaluation tokens but the last have been decoded. -/
  core_eq : s.core = teacherForced rt request rows request.evaluationTokenIds.dropLast
  /-- The position has never left the capacity of the model. -/
  position_le : ∀ n < request.evaluationTokenIds.length,
    (teacherForced rt request rows (request.evaluationTokenIds.take n)).position ≤
      rt.config.maxPositionEmbeddings

theorem position_teacherForced (request : Request) (rows : List ℕ) (tokens : List UInt32) :
    (teacherForced rt request rows tokens).position =
      request.modelInputTokenIds.length + tokens.length := by
  rw [teacherForced, Session.position_advance]
  exact congrArg (· + tokens.length) (Session.position_prompted _)

/-- The rows of a candidate are compacted; otherwise all rows are retained. -/
theorem selectRetained_holds (contents : ℕ → ℕ → V) {request : Request} {rows : List ℕ}
    (h : Admitted request rows) :
    Fallible.Spec (Session.Holds driver (Session.prompted rt request.modelInputTokenIds))
      (selectRetained contents request.mode rows : Fallible (Session rt) String PUnit)
      (fun _ => Session.Holds driver (teacherForced rt request rows []))
      fun _ _ => ¬ driver.Accepts := by
  have hselected : teacherForced rt request rows [] =
    (Session.prompted rt request.modelInputTokenIds).select rows := rfl
  unfold selectRetained
  rw [hselected]
  split_ifs with hmode
  · refine Fallible.Spec.mapError (Session.compactKvCacheRows_holds contents
      (Session.aligned_prompted _) ?_)
    rw [Session.position_prompted]
    exact h.valid
  · refine Fallible.Spec.pure _ fun s hs => ?_
    rw [h.all_of_not_candidate hmode, Session.select_range_prompted]
    exact hs

/-- An evaluation scores the targets of its request, unless a call is refused or a score fails. -/
theorem evaluate_holds (contents : ℕ → ℕ → V) {request : Request} {rows : List ℕ}
    (h : Admitted request rows)
    (hinput : ∀ t ∈ request.modelInputTokenIds, t.toNat < rt.config.vocabSize)
    (htokens : ∀ t ∈ request.evaluationTokenIds, t.toNat < rt.config.vocabSize)
    (hcapacity : request.modelInputTokenIds.length + (request.evaluationTokenIds.length - 1) ≤
      rt.config.maxPositionEmbeddings) :
    Fallible.Spec (Session.Holds driver c)
      (evaluate score contents request rows : Fallible (Session rt) String Evaluation)
      (Evaluated score request rows)
      fun _ _ => ¬ (driver.Accepts ∧ Scorable score rt request rows) := by
  have hprompt : Session.validatePrompt rt request.modelInputTokenIds 0 = .ok ⟨⟩ :=
    Session.validatePrompt_eq_ok_iff.2 ⟨h.input_ne_nil, hinput, by omega⟩
  obtain ⟨bridge, target, rest, htail⟩ : ∃ bridge target rest,
      request.evaluationTokenIds = bridge :: target :: rest := by
    have htwo := h.two_le
    match hids : request.evaluationTokenIds with
    | [] =>
      rw [hids] at htwo
      exact absurd htwo (by decide)
    | [_] =>
      rw [hids] at htwo
      exact absurd htwo (Nat.not_succ_le_self 1)
    | bridge :: target :: rest => exact ⟨bridge, target, rest, rfl⟩
  refine Fallible.Spec.bind (R := fun _ =>
    Session.Holds driver (Session.prompted rt request.modelInputTokenIds))
    (Fallible.Spec.mapError ((Session.prefill_holds hprompt).conseq (fun _ hs => hs)
      (fun _ _ hs => hs.1) fun _ _ hs ha => hs ha.1)) fun _ =>
        Fallible.Spec.bind ((selectRetained_holds contents h).conseq (fun _ hs => hs)
          (fun _ _ hs => hs) fun _ _ hs ha => hs ha.1) fun _ =>
            Fallible.Spec.of_forall fun s₁ hs₁ => Fallible.Spec.get_bind ?_
  have hposition : s₁.position = request.modelInputTokenIds.length :=
    hs₁.position_eq.trans (position_teacherForced request rows [])
  have hbridge : request.evaluationTokenIds.getD 0 0 = bridge := by rw [htail]; rfl
  have htargets : request.evaluationTokenIds.tail = target :: rest := by rw [htail]; rfl
  have hlength : request.evaluationTokenIds.length = rest.length + 2 := by rw [htail]; rfl
  have hselected : (teacherForced rt request rows []).position =
    request.modelInputTokenIds.length := position_teacherForced request rows []
  rw [hposition, if_neg (not_not.2 rfl), hbridge, htargets]
  dsimp only
  rw [evaluateTokens_eq bridge (List.cons_ne_nil target rest)]
  refine Fallible.Spec.bind (R := fun steps s =>
    Scores score rt (teacherForced rt request rows []) request.evaluationTokenIds steps ∧
      Session.Holds driver (teacherForced rt request rows request.evaluationTokenIds.dropLast) s)
    ((decodeThenScore_holds _ bridge (target :: rest) [] ?_ (htail ▸ htokens) ?_).conseq
      (fun s hs => hs ▸ hs₁) ?_ ?_) fun steps => ?_
  · refine Session.fits_select (Session.aligned_prompted _) ?_
    rw [Session.position_prompted]
    exact h.valid
  · rw [hselected, List.length_cons]
    omega
  · rintro steps s ⟨new, rfl, hnew, hs⟩
    rw [htail]
    exact ⟨hnew, hs⟩
  · rintro e s hs ⟨ha, steps, values, hsteps, -⟩
    exact hs ⟨ha, steps, htail ▸ hsteps⟩
  · refine Fallible.Spec.of_forall fun s₂ ⟨hsteps, hs₂⟩ => Fallible.Spec.bind
      (R := fun values s => metrics steps = .ok values ∧ s = s₂)
      (Fallible.Spec.ofExcept (fun values hvalues s hs => ⟨hvalues, hs⟩) fun e he s hs ha => ?_)
      fun (meanNll, tokenAccuracy) => Fallible.Spec.pure _ fun s ⟨hvalues, hs⟩ => ?_
    · obtain ⟨-, steps', values, hsteps', hvalues⟩ := ha
      rw [hsteps'.unique hsteps] at hvalues
      exact nomatch he.symm.trans hvalues
    · have htargets' := hsteps.targets_eq
      refine ⟨?_, hsteps.scored, hvalues, rfl, hs ▸ hs₂.core_eq, fun n hn => ?_⟩
      · rw [htail] at htargets' ⊢
        exact congrArg _ htargets'.symm
      · rw [position_teacherForced, List.length_take]
        omega

/-! ### The backends -/

theorem validateModelTokenRange_ok {request : Request} {vocabSize : ℕ}
    (h : validateModelTokenRange request vocabSize = .ok ⟨⟩) :
    (∀ t ∈ request.modelInputTokenIds, t.toNat < vocabSize) ∧
      ∀ t ∈ request.evaluationTokenIds, t.toNat < vocabSize := by
  have hfield {field : String} {tokens : List UInt32}
      (h : (match tokens.find? fun token => vocabSize ≤ token.toNat with
        | some token => .error
          s!"{field} contains token id {token} outside model vocabulary 0..{vocabSize}"
        | none => .ok ⟨⟩ : Except String Unit) = .ok ⟨⟩) : ∀ t ∈ tokens, t.toNat < vocabSize := by
    intro t ht
    cases hfind : tokens.find? fun token => vocabSize ≤ token.toNat with
    | some token =>
      rw [hfind] at h
      cases h
    | none =>
      have hnone := List.find?_eq_none.1 hfind t ht
      simpa only [decide_eq_true_eq, Nat.not_le] using hnone
  unfold validateModelTokenRange at h
  simp only [List.forM_eq_forM, List.forM_cons, List.forM_nil, Except.bind_eq_ok_iff] at h
  obtain ⟨_, hinput, _, htokens, -⟩ := h
  exact ⟨hfield hinput, hfield htokens⟩

/-- A request that a backend accepts: it is valid, it fits the model, and its targets can be
scored. -/
structure Accepted (score : List F32 → UInt32 → Except String (F64 × UInt32)) (rt : Pipeline V)
    (validated admitted : Except String Unit) (request : Request) (rows : List ℕ) : Prop where
  validated_eq : validated = .ok ⟨⟩
  admitted_eq : admitted = .ok ⟨⟩
  scorable : Scorable score rt request rows

/-- An evaluation behind the checks of a backend. -/
private theorem checked_holds (contents : ℕ → ℕ → V) {validated admitted : Except String Unit}
    {request : Request} {rows : List ℕ}
    (h : validated = .ok ⟨⟩ → admitted = .ok ⟨⟩ → Admitted request rows ∧
      (∀ t ∈ request.modelInputTokenIds, t.toNat < rt.config.vocabSize) ∧
      (∀ t ∈ request.evaluationTokenIds, t.toNat < rt.config.vocabSize) ∧
      request.modelInputTokenIds.length + (request.evaluationTokenIds.length - 1) ≤
        rt.config.maxPositionEmbeddings) :
    Fallible.Spec (fun s : Session rt => s.stream.driver = driver)
      (do
        Fallible.ofExcept validated
        Fallible.ofExcept admitted
        evaluate score contents request rows)
      (fun evaluation s => validated = .ok ⟨⟩ ∧ Evaluated score request rows evaluation s)
      fun _ _ => ¬ (driver.Accepts ∧ Accepted score rt validated admitted request rows) := by
  refine Fallible.Spec.of_forall fun s₁ hs₁ => Fallible.Spec.bind
    (R := fun _ s => validated = .ok ⟨⟩ ∧ s = s₁)
    (Fallible.Spec.ofExcept (fun _ hok s hs => ⟨hok, hs⟩) fun e he _ _ ha =>
      nomatch he.symm.trans ha.2.validated_eq) fun _ => Fallible.Spec.bind
        (R := fun _ s => (validated = .ok ⟨⟩ ∧ s = s₁) ∧ admitted = .ok ⟨⟩)
        (Fallible.Spec.ofExcept (fun _ hok s hs => ⟨hs, hok⟩) fun e he _ _ ha =>
          nomatch he.symm.trans ha.2.admitted_eq) fun _ =>
            Fallible.Spec.of_forall fun s₂ ⟨⟨hvalidated, hs₂⟩, hadmitted⟩ => ?_
  obtain ⟨hrequest, hinput, htokens, hcapacity⟩ := h hvalidated hadmitted
  have hholds : Session.Holds driver s₁.core s₂ := ⟨hs₂ ▸ hs₁, hs₂ ▸ rfl⟩
  exact (evaluate_holds contents hrequest hinput htokens hcapacity).conseq
    (fun s hs => hs ▸ hholds) (fun _ _ hs => ⟨hvalidated, hs⟩)
    fun _ _ hs ha => hs ⟨ha.1, ha.2.scorable⟩

end Evaluation

/-- Both backends, on any model and from any session. A request that is accepted on a driver that
accepts every call is evaluated: after the bridge every evaluation token is scored, on the logits
after the retained rows of the input and all evaluation tokens before it, all evaluation tokens but
the last are decoded, and no position leaves the capacity. The rows that are retained name exactly
the retained identities in order. The loop decodes exactly a token before it scores the next one. -/
theorem evaluation_correct (model : Model) (driver : Driver) (platform : Platform) (args : Args)
    (contents : ℕ → ℕ → F32) :
    (∀ (host : Host) (request : RequestV4),
      Fallible.Spec (fun s : InferenceSession model => s.stream.driver = driver)
        (runV4 platform host contents args request)
        (fun evaluation s =>
          Retains (List.range request.modelInputTokenIds.length) request.retainedPositions
            request.retainedPositions ∧
          Evaluated (scoreLogits platform) request.toRequest request.retainedPositions evaluation s)
        fun _ _ => ¬ (driver.Accepts ∧ Accepted (scoreLogits platform) model.pipeline
          (validateRequestV4 platform args request)
          (admitV4 platform host model.config args request) request.toRequest
          request.retainedPositions)) ∧
    (∀ request : RequestV3,
      Fallible.Spec (fun s : InferenceSession model => s.stream.driver = driver)
        (runV3 platform contents args request)
        (fun evaluation s =>
          Retains request.logicalInputTokenIds request.retainedLogicalTokenIds
            (retainedRows request) ∧
          Evaluated (scoreLogits platform) request.toRequest (retainedRows request) evaluation s)
        fun _ _ => ¬ (driver.Accepts ∧ Accepted (scoreLogits platform) model.pipeline
          (validateRequestV3 platform args request) (admitV3 model.config request)
          request.toRequest (retainedRows request))) ∧
    ∀ (bridge target : UInt32) (rest : List UInt32),
      (evaluateTokens (scoreLogits platform) bridge (target :: rest) :
        Fallible (InferenceSession model) String (List ScoreStep)) =
      decodeThenScore (scoreLogits platform) "NNIS bridge decode failed" bridge (target :: rest)
        [] := by
  refine ⟨fun host request => ?_, fun request => ?_, fun bridge target rest =>
    evaluateTokens_eq bridge (List.cons_ne_nil target rest)⟩
  · refine (checked_holds contents fun hvalidated hadmitted => ?_).conseq (fun _ hs => hs)
      (fun _ _ hs => ⟨retains_of_validateRequestV4 hs.1, hs.2⟩) fun _ _ hs => hs
    unfold admitV4 at hadmitted
    simp only [Except.bind_eq_ok_iff, Except.ite_error_eq_ok_iff] at hadmitted
    obtain ⟨-, -, -, -, -, -, -, -, -, _, hrange, required, hrequired, hcapacity, -⟩ := hadmitted
    obtain ⟨-, hsum, -⟩ := requiredPositions_eq_ok_iff.1 hrequired
    obtain ⟨hinput, htokens⟩ := validateModelTokenRange_ok hrange
    exact ⟨(admitted_of_validateRequestV4 hvalidated).1, hinput, htokens,
      hsum ▸ Nat.not_lt.1 hcapacity⟩
  · refine (checked_holds contents fun hvalidated hadmitted => ?_).conseq (fun _ hs => hs)
      (fun _ _ hs => ⟨retains_of_validateRequestV3 hs.1, hs.2⟩) fun _ _ hs => hs
    unfold admitV3 at hadmitted
    simp only [Except.bind_eq_ok_iff, Except.ite_error_eq_ok_iff, okOr_eq_ok_iff,
      checkedAdd_eq_some_iff] at hadmitted
    obtain ⟨_, hrange, requested, ⟨hsum, -⟩, hcapacity, -⟩ := hadmitted
    obtain ⟨hinput, htokens⟩ := validateModelTokenRange_ok hrange
    have hle := hsum ▸ Nat.not_lt.1 hcapacity
    refine ⟨admitted_of_validateRequestV3 hvalidated, hinput, htokens, le_trans ?_ hle⟩
    omega

end Kvlab

end NNIS
