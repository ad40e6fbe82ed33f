import NNIS.Cpu.Speculative
import NNIS.Numeric.Bytes
import NNIS.Wgpu.Numerical

/-!
# WGPU greedy verification of speculative drafts

The verifier of `nnis-wgpu/src/speculative.rs`: one kernel finds the greedy token of each row by a
key of raw bits, the host reads the result back and applies `verifyScheduledDraft` to the tokens.
The device may refuse the allocation of the parameters and of the result, the dispatch and the
readback. The fingerprint of the artifact is left out of an outcome.

## Main definitions

* `WgpuSpeculativeError`, `WgpuSpeculativeOutcomeV1`, `WgpuGreedySpeculativeVerifierV1`.
* `orderKey`, `argmaxFrom`, `argmaxMain` — the kernel.
* `WgpuGreedySpeculativeVerifierV1.verify`, `WgpuGreedySpeculativeVerifierV1.verifyHost`.
-/

set_option autoImplicit false

namespace NNIS

/-- Fail-closed WGPU speculative-verification errors. -/
inductive WgpuSpeculativeError
  | contract (error : SpeculativeError)
  | zeroVocabulary
  | tokenOutOfVocabulary (index : ℕ) (token : UInt32)
  | logitsLengthMismatch (expected actual : ℕ)
  | logitsByteLengthMismatch (expectedBytes actualBytes : ℕ)
  | nonFiniteLogit (row column : ℕ)
  | hostIndexOverflow
  | exceedsDeviceIndexing
  | portable (error : PortableError)
  deriving DecidableEq

/-- The text of an error. -/
def WgpuSpeculativeError.text : WgpuSpeculativeError → String
  | contract error => s!"speculative contract: {error.text}"
  | zeroVocabulary => "verifier vocabulary size must be non-zero"
  | tokenOutOfVocabulary index token => s!"draft token {index} ({token}) is outside the vocabulary"
  | logitsLengthMismatch expected actual =>
    s!"target logits have {actual} values, expected {expected}"
  | logitsByteLengthMismatch expectedBytes actualBytes =>
    s!"target logits buffer has {actualBytes} bytes, expected {expectedBytes}"
  | nonFiniteLogit row column => s!"target logit at row {row} column {column} is not finite"
  | hostIndexOverflow => "logits size does not fit host indexing"
  | exceedsDeviceIndexing => "logits size exceeds u32 WGPU device indexing"
  | portable error => s!"WGPU speculative verification: {error.text}"

/-- A computation of a verifier. -/
abbrev WgpuSpeculativeM (α : Type) := Fallible WgpuAnswers (Stop WgpuSpeculativeError) α

/-- Contract version of the greedy-argmax kernel. -/
def wgslGreedyArgmaxContractVersion : ℕ := 1

/-! ### The kernel -/

/-- The word of a row without a non-finite value. -/
def noNonFinite : ℕ := 0xFFFFFFFF

/-- Monotonic key of a finite word with `-0.0` folded onto `+0.0`. -/
def orderKey (raw : ℕ) : ℕ :=
  let bits := if raw &&& 0x7FFFFFFF = 0 then 0 else raw
  if bits &&& 0x80000000 ≠ 0 then 0xFFFFFFFF - bits else bits ||| 0x80000000

section

variable {ε : Type}

/-- The scan of a row from a column on: its best column and its first non-finite one. -/
def argmaxFrom (logits : List ℕ) (base : ℕ) : (left column best bestKey : ℕ) → Outcome ε (ℕ × ℕ)
  | 0, _, best, _ => pure (best, noNonFinite)
  | left + 1, column, best, bestKey => do
    let index ← kernelU32 (base + column)
    let bits ← .index logits index
    if bits &&& 0x7F800000 = 0x7F800000 then pure (best, column)
    else
      let key := orderKey bits
      if column = 0 ∨ bestKey < key then argmaxFrom logits base left (column + 1) column key
      else argmaxFrom logits base left (column + 1) best bestKey

/-- An invocation of the kernel. -/
def argmaxMain (params logits result : List ℕ) (row : ℕ) : Outcome ε (List ℕ) := do
  let rows ← .index params 0
  let vocab ← .index params 1
  if row ≥ rows then pure result else do
    let base ← kernelU32 (row * vocab)
    let found ← argmaxFrom logits base vocab 0 0 0
    let first ← kernelU32 (2 * row)
    let second ← kernelU32 (2 * row + 1)
    let result ← .modifyAt result first fun _ => found.1
    .modifyAt result second fun _ => found.2

end

/-! ### The verifier -/

/-- Verification outcome and the greedy tokens that the device found. -/
structure WgpuSpeculativeOutcomeV1 where
  verification : SpeculativeVerificationV1
  targetTokens : List UInt32
  schemaVersion : ℕ

/-- Greedy-semantics WGPU verifier for one vocabulary size. -/
structure WgpuGreedySpeculativeVerifierV1 where
  vocabSize : ℕ
  vocabSize_pos : 0 < vocabSize
  vocabSize_lt : vocabSize < 2 ^ 32

/-- The tokens of the words that the kernel wrote, for the rows from `row` on. -/
def tokensOfResult : (row : ℕ) → List ℕ → Outcome WgpuSpeculativeError (List UInt32)
  | row, best :: nonFinite :: rest =>
    if nonFinite ≠ noNonFinite then .raise (.nonFiniteLogit row nonFinite)
    else do
      let tokens ← tokensOfResult (row + 1) rest
      pure (UInt32.ofNat best :: tokens)
  | _, _ => pure []

namespace WgpuGreedySpeculativeVerifierV1

/-- Construct a verifier for a non-zero vocabulary size. -/
def new (vocabSize : ℕ) (h : vocabSize < 2 ^ 32) :
    Except WgpuSpeculativeError WgpuGreedySpeculativeVerifierV1 :=
  if h₀ : vocabSize = 0 then .error .zeroVocabulary
  else .ok ⟨vocabSize, Nat.pos_of_ne_zero h₀, h⟩

variable (verifier : WgpuGreedySpeculativeVerifierV1)

/-- The rows and the values that a step needs. -/
def expectedValues (draft : SpeculativeDraftV1) (schedule : ConfidenceScheduleV1) :
    Outcome WgpuSpeculativeError (ℕ × ℕ) :=
  match draft.tokens.findIdx? fun token => decide (verifier.vocabSize ≤ token.toNat) with
  | some index => .raise (.tokenOutOfVocabulary index (draft.tokens.getD index 0))
  | none => do
    let rows := schedule.scheduledLen draft + 1
    let expected ← .okOr (checkedMul rows verifier.vocabSize) .hostIndexOverflow
    pure (rows, expected)

/-- The artifact of the kernel binds the parameters, the logits and the result. -/
def bindingBytes (logitsBytes rows : ℕ) : List ℕ := [8, logitsBytes, rows * 8]

/-- Dispatch the kernel on a device buffer and read its result back. -/
def argmax (scheduler : Scheduler) (device : WgpuDevice) (targetLogits : WgpuBuffer) (rows : ℕ) :
    WgpuSpeculativeM (List ℕ) := do
  let params := [rows % wordLimit32, verifier.vocabSize]
  let resultBytes := rows * 8
  (popScopes "WGPU greedy argmax allocation").wrap .portable
  .ofExcept (Outcome.wrap .portable (device.artifact 64 (bindingBytes targetLogits.len rows)))
  let groups ← .ofExcept (Outcome.wrap .portable (device.groups rows 64))
  let result ← .ofExcept (dispatch (argmaxMain params (wordsOfLeBytes targetLogits.buffer))
    (scheduler.order 0 (groups * 64)) (List.replicate (rows * 2) 0))
  (popScopes "WGPU greedy argmax").wrap .portable
  let bytes ← (WgpuQueue.readWgpu (result.flatMap (leBytes 4)) 0 resultBytes).wrap .portable
  pure (wordsOfLeBytes bytes)

/-- What the host makes of the words of the result. -/
def ofResult (draft : SpeculativeDraftV1) (schedule : ConfidenceScheduleV1) (words : List ℕ) :
    Outcome WgpuSpeculativeError WgpuSpeculativeOutcomeV1 := do
  let targetTokens ← tokensOfResult 0 words
  match verifyScheduledDraft draft schedule targetTokens with
  | .error error => .raise (.contract error)
  | .ok verification =>
    pure
      { verification
        targetTokens
        schemaVersion := wgslGreedyArgmaxContractVersion }

/-- Run the kernel on a device buffer and verify its tokens. -/
def run (scheduler : Scheduler) (device : WgpuDevice) (draft : SpeculativeDraftV1)
    (schedule : ConfidenceScheduleV1) (targetLogits : WgpuBuffer) (rows values : ℕ) :
    WgpuSpeculativeM WgpuSpeculativeOutcomeV1 := do
  .ofExcept (Outcome.require (values < wordLimit32) .exceedsDeviceIndexing)
  .ofExcept (Outcome.wrap .portable
    (WgpuQueue.checkOwner ⟨device.token⟩ targetLogits.toWgpuHeader))
  .ofExcept (Outcome.wrap .portable (targetLogits.requireUsage .storage "WGPU greedy argmax"))
  let words ← verifier.argmax scheduler device targetLogits rows
  .ofExcept (ofResult draft schedule words)

/-- Verify one draft step from row-major target logits in a device buffer. -/
def verify (scheduler : Scheduler) (device : WgpuDevice) (draft : SpeculativeDraftV1)
    (schedule : ConfidenceScheduleV1) (targetLogits : WgpuBuffer) :
    WgpuSpeculativeM WgpuSpeculativeOutcomeV1 := do
  let (rows, expected) ← .ofExcept (verifier.expectedValues draft schedule)
  let expectedBytes ← .ofExcept (Outcome.okOr (checkedMul expected 4) .hostIndexOverflow)
  .ofExcept (Outcome.require (targetLogits.len = expectedBytes)
    (if targetLogits.len % 4 = 0 then .logitsLengthMismatch expected (targetLogits.len / 4)
      else .logitsByteLengthMismatch expectedBytes targetLogits.len))
  verifier.run scheduler device draft schedule targetLogits rows expected

/-- The usages of logits that the host uploads. -/
def logitsUsages : BufferUsages := .storage ||| .copySrc ||| .copyDst

/-- Upload host logits and verify them on a device. -/
def verifyHost (scheduler : Scheduler) (device : WgpuDevice) (draft : SpeculativeDraftV1)
    (schedule : ConfidenceScheduleV1) (targetLogits : List F32) :
    WgpuSpeculativeM WgpuSpeculativeOutcomeV1 := do
  let (rows, expected) ← .ofExcept (verifier.expectedValues draft schedule)
  .ofExcept (Outcome.require (targetLogits.length = expected)
    (.logitsLengthMismatch expected targetLogits.length))
  let bytes := F32.bytes targetLogits
  let descriptor ← .ofExcept
    (Outcome.wrap .portable (BufferDesc.new bytes.length logitsUsages .deviceLocal))
  let buffer ← (device.upload descriptor bytes).wrap .portable
  verifier.run scheduler device draft schedule buffer rows expected

end WgpuGreedySpeculativeVerifierV1

end NNIS
