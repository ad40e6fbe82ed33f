import NNIS.Cpu.Speculative
import NNIS.Model.Pipeline
import NNIS.Rt.KvCompaction

/-!
# Decoder sessions

The mutable autoregressive state of one sequence and its operations, for any pipeline: the shared
program of `InferenceSession` (`nnis-model/src/runtime.rs`, `runtime/kv_selection.rs`,
`speculative_session.rs`) and `F16ReferenceSession` (`f16_reference_runtime.rs`). A session owns
its cache and the two workspace buffers that outlive a token, the logits and the current token. An
operation that fails returns its error and keeps what its completed statements have done.

## Main definitions

* `Session`, `Session.enqueueCurrentToken`, `Session.finish`.
* `Session.decodeOne`, `Session.prefill`, `Session.generate`, `Session.reset`.
* `Session.verifyGreedyDraft`, `Session.rewindTo`, `Session.compactKvCacheRows`.
-/

set_option autoImplicit false

namespace NNIS

/-- Mutable autoregressive state for one sequence. -/
structure Session {V : Type} (rt : Pipeline V) where
  cache : KvCache rt.config.cache V
  logits : List F32
  currentToken : UInt32
  position : ℕ
  length_logits : logits.length = rt.config.vocabSize

/-- Generation length and optional end-of-sequence token. -/
structure GenerationConfig where
  maxNewTokens : ℕ
  eosTokenId : Option UInt32

/-- Outcome of one session speculative verification step. -/
structure SessionSpeculativeStepV1 where
  verification : SpeculativeVerificationV1
  startPosition : ℕ
  nextLogits : List F32
  deriving DecidableEq

namespace Session

variable {V : Type} {rt : Pipeline V}

/-- A new session, on a stream and over allocations with some contents. -/
def new (stream : Stream) (keys values : List V) (logits : List F32) (currentToken : UInt32)
    (hkeys : keys.length = rt.config.cache.elementsPerSide)
    (hvalues : values.length = rt.config.cache.elementsPerSide)
    (hlogits : logits.length = rt.config.vocabSize) : Session rt where
  cache := .ofAllocations stream keys values hkeys hvalues
  logits := logits
  currentToken := currentToken
  position := 0
  length_logits := hlogits

/-- The number of positions of a session. -/
def capacity (_ : Session rt) : ℕ := rt.config.maxPositionEmbeddings

/-- The stream of a session. -/
def stream (s : Session rt) : Stream := s.cache.stream

/-! ### Updates -/

/-- The session with another cache. -/
def withCache (cache : KvCache rt.config.cache V) (s : Session rt) : Session rt :=
  { s with cache := cache }

/-- The session on another state of its stream. -/
def withStream (stream : Stream) (s : Session rt) : Session rt :=
  s.withCache (s.cache.withStream stream)

/-- Write the logits of a hidden value. -/
def writeLogits (normed : List V) (s : Session rt) : Session rt :=
  { s with logits := rt.lmHead normed, length_logits := rt.length_lmHead normed }

/-- Write the current token. -/
def writeToken (token : UInt32) (s : Session rt) : Session rt := { s with currentToken := token }

/-- Set the position. -/
def setPosition (position : ℕ) (s : Session rt) : Session rt := { s with position := position }

/-! ### Device work -/

/-- An operation of the cache. -/
def onCache {α : Type} (m : Fallible (KvCache rt.config.cache V) NnisError α) :
    Fallible (Session rt) NnisError α :=
  m.zoom cache withCache

/-- Call the driver on the stream of the session. -/
def call (site : CallSite) : Fallible (Session rt) NnisError PUnit := onCache (KvCache.call site)

/-- Wait for the stream of the session. -/
def synchronize (point : SyncPoint) : Fallible (Session rt) NnisError PUnit :=
  call (.synchronize point)

/-- Submit the launches of one stage. -/
def submit {α : Type} (stage : Stage) (batch : Batch α) : Fallible (Session rt) NnisError α := do
  Fallible.forRange batch.launches fun index => call (.launch stage index)
  return batch.value

/-- The part of a token in one layer: its row is appended, and the layer's output is computed from
the active rows. -/
def enqueueLayer (position layer : ℕ) (hidden : List V) :
    Fallible (Session rt) NnisError (List V) := do
  let (query, row) ← submit (.input layer) (rt.input layer position hidden)
  onCache (KvCache.appendLayerAsync layer row.key row.value 1)
  let s ← Fallible.get
  submit (.output layer) (rt.output layer hidden query (s.cache.rows layer))

/-- Encode the current token at the current position. -/
def enqueueCurrentToken : Fallible (Session rt) NnisError PUnit := do
  let s ← Fallible.get
  if rt.config.maxPositionEmbeddings ≤ s.position then
    Fallible.fail (.invalidInput (s!"{rt.label}decoder position {s.position} exceeds " ++
      s!"max_position_embeddings {rt.config.maxPositionEmbeddings}"))
  else do
    let hidden ← submit .gather (rt.gather s.currentToken)
    let hidden ← Fallible.foldRange rt.config.numHiddenLayers hidden (enqueueLayer s.position)
    let normed ← submit .finalNorm (rt.finalNorm hidden)
    call (.launch .lmHead 0)
    Fallible.modify (writeLogits normed)
    Fallible.modify fun s => s.setPosition (s.position + 1)

/-- Wait for the submitted work. The error of the submission comes before that of the wait. -/
def finish {α : Type} (enqueueResult : Except NnisError α) :
    Fallible (Session rt) NnisError α := do
  let synchronizeResult ← (synchronize .finish).attempt
  match enqueueResult with
  | .ok value => do
    Fallible.ofExcept synchronizeResult
    return value
  | .error error => Fallible.fail error

/-- Read the logits back. -/
def readLogits : Fallible (Session rt) NnisError (List F32) := do
  call .downloadLogits
  let s ← Fallible.get
  return s.logits

/-- A token is in the vocabulary. -/
def validateToken (rt : Pipeline V) (token : UInt32) : Except NnisError Unit :=
  if rt.config.vocabSize ≤ token.toNat then
    .error (.invalidInput (s!"{rt.label}token id {token} is out of range for vocabulary " ++
      s!"{rt.config.vocabSize}"))
  else .ok ⟨⟩

/-- A prompt is not empty, is made of tokens of the vocabulary and fits with the tokens to come. -/
def validatePrompt (rt : Pipeline V) (inputIds : List UInt32) (extraTokens : ℕ) :
    Except NnisError Unit := do
  if inputIds = [] then
    throw (.invalidInput s!"{rt.label}decoder prefill requires at least one input token")
  inputIds.forM (validateToken rt)
  let total ← orInvalid s!"{rt.label}prompt + generation length overflows usize"
    (checkedAdd inputIds.length extraTokens)
  if rt.config.maxPositionEmbeddings < total then
    throw (.invalidInput (s!"{rt.label}prompt + generation requires {total} positions; " ++
      s!"session capacity is {rt.config.maxPositionEmbeddings}"))

/-! ### Decoding -/

/-- Forget the sequence. -/
def reset : Fallible (Session rt) NnisError PUnit := do
  synchronize .reset
  Fallible.modify fun s => (s.withCache s.cache.reset).setPosition 0

/-- Encode a prompt that has been uploaded, token by token. -/
def enqueuePrefill (inputIds : List UInt32) : Fallible (Session rt) NnisError PUnit :=
  Fallible.forEach inputIds.zipIdx fun (token, index) => do
    call (.selectToken index)
    Fallible.modify (writeToken token)
    enqueueCurrentToken

/-- Prefill a complete prompt and return the logits after its last token. -/
def prefill (inputIds : List UInt32) : Fallible (Session rt) NnisError (List F32) := do
  Fallible.ofExcept (validatePrompt rt inputIds 0)
  reset
  call .uploadTokens
  let enqueueResult ← (enqueuePrefill inputIds).attempt
  finish enqueueResult
  readLogits

/-- Decode one explicit token and return its resulting logits. -/
def decodeOne (token : UInt32) : Fallible (Session rt) NnisError (List F32) := do
  Fallible.ofExcept (validateToken rt token)
  let s ← Fallible.get
  if s.capacity ≤ s.position then
    Fallible.fail (.invalidInput (s!"{rt.label}decode position {s.position} exceeds session " ++
      s!"capacity {s.capacity}"))
  else do
    let enqueueResult ← (do
      call .uploadToken
      Fallible.modify (writeToken token)
      enqueueCurrentToken).attempt
    finish enqueueResult
    readLogits

/-- Pick the next token on the device. -/
def enqueueTopOne : Fallible (Session rt) NnisError PUnit := do
  call .topOne
  Fallible.modify fun s => s.writeToken (rt.topOne s.logits)

/-- Greedy generation of a fixed number of tokens, all submitted before one wait. -/
def generateFixed (inputIds : List UInt32) (maxNewTokens : ℕ) :
    Fallible (Session rt) NnisError (List UInt32) := do
  reset
  call .uploadTokens
  call .allocate
  let enqueueResult ← (do
    enqueuePrefill inputIds
    Fallible.foldRange maxNewTokens [] fun step generated => do
      enqueueTopOne
      call (.recordToken step)
      let s ← Fallible.get
      enqueueCurrentToken
      return generated ++ [s.currentToken]).attempt
  let generated ← finish enqueueResult
  call .downloadTokens
  return generated

/-- The rounds of `generateUntilEos`, each of which observes one token on the host. -/
def generateUntilEosLoop (eosTokenId : UInt32) :
    (rounds : ℕ) → List UInt32 → Fallible (Session rt) NnisError (List UInt32)
  | 0, generated => do
    finish (.ok PUnit.unit)
    return generated
  | rounds + 1, generated => do
    let enqueueResult ← (do
      enqueueTopOne
      call .downloadToken).attempt
    finish enqueueResult
    let s ← Fallible.get
    let token := s.currentToken
    let generated := generated ++ [token]
    let enqueueResult ← enqueueCurrentToken.attempt
    if token = eosTokenId ∨ enqueueResult.toOption.isNone then do
      finish enqueueResult
      if token = eosTokenId then return generated
      else generateUntilEosLoop eosTokenId rounds generated
    else generateUntilEosLoop eosTokenId rounds generated

/-- Greedy generation that stops after the end-of-sequence token. -/
def generateUntilEos (inputIds : List UInt32) (maxNewTokens : ℕ) (eosTokenId : UInt32) :
    Fallible (Session rt) NnisError (List UInt32) := do
  reset
  call .uploadTokens
  let enqueueResult ← (enqueuePrefill inputIds).attempt
  finish enqueueResult
  generateUntilEosLoop eosTokenId maxNewTokens []

/-- The end-of-sequence token, if any, is in the vocabulary. -/
def validateGeneration (rt : Pipeline V) (generation : GenerationConfig) : Except NnisError Unit :=
  match generation.eosTokenId with
  | none => .ok ⟨⟩
  | some eosTokenId =>
    if rt.config.vocabSize ≤ eosTokenId.toNat then
      .error (.invalidInput (s!"generation eos_token_id {eosTokenId} is out of range for " ++
        s!"vocabulary {rt.config.vocabSize}"))
    else .ok ⟨⟩

/-- Greedy generation. -/
def generate (inputIds : List UInt32) (generation : GenerationConfig) :
    Fallible (Session rt) NnisError (List UInt32) := do
  Fallible.ofExcept (validateGeneration rt generation)
  Fallible.ofExcept (validatePrompt rt inputIds generation.maxNewTokens)
  match generation.eosTokenId with
  | some eosTokenId => generateUntilEos inputIds generation.maxNewTokens eosTokenId
  | none => generateFixed inputIds generation.maxNewTokens

/-! ### Speculative verification -/

/-- Retire outstanding work and shorten the cache and the position. -/
def rewindTo (position : ℕ) : Fallible (Session rt) NnisError PUnit := do
  synchronize .rewind
  onCache (KvCache.truncate position)
  Fallible.modify (setPosition position)

/-- Teacher-forced target logits for a scheduled draft: the current logits followed by the logits
after each scheduled draft token, row-major. -/
def teacherForcedLogits (currentLogits : List F32) (draft : SpeculativeDraftV1)
    (schedule : ConfidenceScheduleV1) : Fallible (Session rt) NnisError (List F32) :=
  Fallible.foldEach (draft.tokens.take (schedule.scheduledLen draft)) currentLogits
    fun token rows => do
      let logits ← decodeOne token
      if logits.length ≠ currentLogits.length then
        Fallible.fail (.invalidInput
          s!"decode returned {logits.length} logits; expected {currentLogits.length}")
      else return rows ++ logits

/-- Judge teacher-forced logits with the CPU greedy reference semantics. -/
def judgeGreedy (vocabSize : ℕ) (draft : SpeculativeDraftV1) (schedule : ConfidenceScheduleV1)
    (targetLogits : List F32) : Except NnisError SpeculativeVerificationV1 :=
  if h : vocabSize < 2 ^ 32 then
    let outcome := do
      let verifier ← CpuGreedySpeculativeVerifierV1.new vocabSize h
      verifier.verify draft schedule targetLogits
    outcome.mapError fun error =>
      .invalidInput s!"speculative verification: {error.text}"
  else .error (.invalidInput "vocabulary size exceeds u32")

/-- Record one outcome into a copy of the counters. -/
def recorded (stats : SpeculativeAcceptanceStatsV1) (outcome : SpeculativeVerificationV1) :
    Except NnisError SpeculativeAcceptanceStatsV1 :=
  (stats.record outcome).mapError fun error =>
    .invalidInput s!"speculative counters: {error.text}"

/-- The part of a verification after the current logits have been read: teacher-force the draft,
judge it, rewind to the accepted prefix and decode the emitted token. -/
def speculativeStep (startPosition : ℕ) (currentLogits : List F32) (draft : SpeculativeDraftV1)
    (schedule : ConfidenceScheduleV1) (stats : SpeculativeAcceptanceStatsV1) :
    Fallible (Session rt) NnisError
      (SpeculativeVerificationV1 × SpeculativeAcceptanceStatsV1 × List F32) := do
  let rows ← teacherForcedLogits currentLogits draft schedule
  let verification ← Fallible.ofExcept (judgeGreedy rt.config.vocabSize draft schedule rows)
  let nextStats ← Fallible.ofExcept (recorded stats verification)
  rewindTo (startPosition + verification.accepted)
  match verification.emittedTokens.getLast? with
  | none => Fallible.fail (.invalidInput "verification emitted no token")
  | some emitted => do
    let nextLogits ← decodeOne emitted
    return (verification, nextStats, nextLogits)

/-- The checks made before any work: the session is prefilled, the draft is in the vocabulary and
the step fits the capacity. -/
def validateDraft (s : Session rt) (draft : SpeculativeDraftV1) (schedule : ConfidenceScheduleV1) :
    Except NnisError Unit := do
  if s.position = 0 then
    throw (.invalidInput "speculative verification requires a prefilled session")
  draft.tokens.forM (validateToken rt)
  let required ← orInvalid "speculative positions overflow usize" do
    let last ← checkedAdd s.position (schedule.scheduledLen draft)
    checkedAdd last 1
  if s.capacity < required then
    throw (.invalidInput (s!"speculative step requires {required} positions; session capacity " ++
      s!"is {s.capacity}"))

/-- Wait for outstanding work and read the logits of the current position. -/
def readCurrentLogits : Fallible (Session rt) NnisError (List F32) := do
  synchronize .verify
  readLogits

/-- Opt-in, caller-driven greedy speculative verification of one draft. Returns the step and the
new counters; on failure after decoding started the session is rewound to its start position. -/
def verifyGreedyDraft (draft : SpeculativeDraftV1) (schedule : ConfidenceScheduleV1)
    (stats : SpeculativeAcceptanceStatsV1) :
    Fallible (Session rt) NnisError
      (SessionSpeculativeStepV1 × SpeculativeAcceptanceStatsV1) := do
  let s ← Fallible.get
  let startPosition := s.position
  Fallible.ofExcept (validateDraft s draft schedule)
  let currentLogits ← readCurrentLogits
  let step ← (speculativeStep startPosition currentLogits draft schedule stats).attempt
  match step with
  | .ok (verification, nextStats, nextLogits) =>
    return ({ verification, startPosition, nextLogits }, nextStats)
  | .error error => do
    let rewound ← (rewindTo startPosition).attempt
    match rewound with
    | .ok _ => Fallible.fail error
    | .error rewind => Fallible.fail (.invalidInput
        (s!"{error.text}; rewinding to position {startPosition} also failed ({rewind.text}); " ++
          "reset the session"))

/-! ### Compaction -/

/-- Compact every model layer to the same explicit subset of the active physical rows. The logical
position does not change. -/
def compactKvCacheRows (contents : ℕ → ℕ → V) (retainedRows : List ℕ) :
    Fallible (Session rt) NnisError PUnit := do
  synchronize .compact
  onCache (KvCache.compactKvCache contents retainedRows)

end Session

end NNIS
