import NNIS.Model.Runtime
import NNIS.Model.Sampling
import NNIS.Model.SessionVerify
import NNIS.Semantics.Collect

/-!
# Sampled generation

The two sampled generations of a session of the F32 runtime: `generate_sampled`
(`nnis-model/src/sampling.rs`) and `generate_sampled_streaming` (`nnis-model/src/streaming.rs`),
which shows every token to a callback of the caller. The sampler of a generation is a local state;
it is handed out with the tokens here.

## Main definitions

* `GenerationConfig.validate`, `SampledLocals`.
* `InferenceSession.generateSampled`.
* `GenerationStreamControl`, `InferenceSession.generateSampledStreaming`.

## Main results

* `InferenceSession.streaming_agrees` — streaming agrees with the generation of a batch.
-/

set_option autoImplicit false

namespace NNIS

/-- The end-of-sequence token, if any, is in a vocabulary. -/
def GenerationConfig.validate (generation : GenerationConfig) (vocabSize : ℕ) :
    Except NnisError Unit :=
  match generation.eosTokenId with
  | none => .ok ⟨⟩
  | some eosTokenId =>
    if vocabSize ≤ eosTokenId.toNat then
      .error (.invalidInput (s!"generation eos_token_id {eosTokenId} is out of range for " ++
        s!"vocabulary {vocabSize}"))
    else .ok ⟨⟩

/-- The local state of a sampled generation: the sampler and the current logits. -/
structure SampledLocals where
  sampler : HostLogitSampler
  logits : List F32

/-- Caller control returned after each emitted token in a streaming generation. -/
inductive GenerationStreamControl
  /-- Continue generating until EOS or `max_new_tokens`. -/
  | continue
  /-- Stop cleanly after the current emitted token has been executed. -/
  | stop
  deriving DecidableEq

/-- A callback of the caller, with the state that it keeps. -/
abbrev OnToken (κ : Type) := κ → UInt32 → GenerationStreamControl × κ

/-- What a callback observes: it halts a generation by the answer to stop. -/
def OnToken.observer {κ : Type} (onToken : OnToken κ) : Observer κ UInt32 := fun k token =>
  (decide ((onToken k token).1 = .stop), (onToken k token).2)

namespace InferenceSession

open Session

variable {W κ S : Type} (ops : WeightArithmetic W) {model : Model}

/-- The positions of a prompt and of the tokens to come are there. The errors begin with what
requires them. -/
def requirePositions (what : String) (s : InferenceSession model) (inputIds : List UInt32)
    (generation : GenerationConfig) : Except NnisError Unit := do
  let requiredPositions ← orInvalid s!"{what} length overflows usize"
    (checkedAdd inputIds.length generation.maxNewTokens)
  if s.capacity < requiredPositions then
    .error (.invalidInput (s!"{what} requires {requiredPositions} positions; session capacity " ++
      s!"is {s.capacity}"))
  else .ok ⟨⟩

/-- Prefill the prompt and set up the sampler for the width of the logits. -/
def startSampling (inputIds : List UInt32) (generation : GenerationConfig)
    (sampling : SamplingConfig) : Fallible (InferenceSession model) NnisError SampledLocals := do
  let logits ← prefill inputIds
  Fallible.ofExcept (generation.validate logits.length)
  let sampler ← Fallible.ofExcept (HostLogitSampler.new ops sampling logits.length)
  return ⟨sampler, logits⟩

/-- Sample a token from the current logits. -/
def drawToken : Fallible (S × SampledLocals) NnisError UInt32 := do
  let (_, locals) ← Fallible.get
  (HostLogitSampler.sample ops locals.logits).zoom (fun state => state.2.sampler)
    fun sampler state => (state.1, { state.2 with sampler := sampler })

/-- Replace the current logits. -/
def setLogits (logits : List F32) (state : S × SampledLocals) : S × SampledLocals :=
  (state.1, { state.2 with logits := logits })

/-! ### Batch generation -/

/-- One round: sample a token and decode it. It is the last one after the end of the sequence. -/
def sampledRound (eosTokenId : Option UInt32) :
    Fallible (InferenceSession model × SampledLocals) NnisError (UInt32 × Bool) := do
  let token ← drawToken ops
  let logits ← (decodeOne token).zoom Prod.fst fun session state => (session, state.2)
  Fallible.modify (setLogits logits)
  return (token, decide (eosTokenId = some token))

/-- Seeded top-k/top-p/temperature generation, with the sampler at its end. -/
def generateSampled (inputIds : List UInt32) (generation : GenerationConfig)
    (sampling : SamplingConfig) :
    Fallible (InferenceSession model) NnisError (List UInt32 × HostLogitSampler) := do
  let s ← Fallible.get
  Fallible.ofExcept (requirePositions "prompt + sampled generation" s inputIds generation)
  let locals ← startSampling ops inputIds generation sampling
  let (generated, locals) ← (Fallible.collect (sampledRound ops generation.eosTokenId)
    generation.maxNewTokens).withLocals locals
  return (generated, locals.sampler)

/-! ### Streaming -/

/-- Show a token to the callback. -/
def deliver (onToken : OnToken κ) (token : UInt32) :
    Fallible ((InferenceSession model × κ) × SampledLocals) NnisError GenerationStreamControl :=
  ⟨fun state =>
    let (control, caller) := onToken state.1.2 token
    (.ok control, ((state.1.1, caller), state.2))⟩

/-- One round: sample a token, decode it, and show it to the callback. -/
def streamingRound (eosTokenId : Option UInt32) (onToken : OnToken κ) :
    Fallible ((InferenceSession model × κ) × SampledLocals) NnisError (UInt32 × Bool) := do
  let token ← drawToken ops
  let logits ← (decodeOne token).zoom (fun state => state.1.1)
    fun session state => ((session, state.1.2), state.2)
  Fallible.modify (setLogits logits)
  let callerControl ← deliver onToken token
  return (token, decide (eosTokenId = some token ∨ callerControl = .stop))

/-- Sampled generation with token-by-token delivery. -/
def generateSampledStreaming (inputIds : List UInt32) (generation : GenerationConfig)
    (sampling : SamplingConfig) (onToken : OnToken κ) :
    Fallible (InferenceSession model × κ) NnisError (List UInt32 × HostLogitSampler) := do
  let (s, _) ← Fallible.get
  Fallible.ofExcept
    (requirePositions "prompt + sampled streaming generation" s inputIds generation)
  let locals ← (startSampling ops inputIds generation sampling).zoom Prod.fst
    fun session state => (session, state.2)
  let (generated, locals) ← (Fallible.collect (streamingRound ops generation.eosTokenId onToken)
    generation.maxNewTokens).withLocals locals
  return (generated, locals.sampler)

/-! ### Agreement -/

theorem run_drawToken (x : S) (locals : SampledLocals) :
    (drawToken ops).run (x, locals) =
      (((HostLogitSampler.sample ops locals.logits).run locals.sampler).1,
        (x, { locals with
          sampler := ((HostLogitSampler.sample ops locals.logits).run locals.sampler).2 })) :=
  rfl

/-- The parts of a batch state and the state of a callback. -/
private def withCaller (state : InferenceSession model × SampledLocals) (caller : κ) :
    (InferenceSession model × κ) × SampledLocals := ((state.1, caller), state.2)

/-- A round of streaming is a round of the batch, and then the callback. -/
private theorem streamingRound_observed (eosTokenId : Option UInt32) (onToken : OnToken κ) :
    Fallible.Observed (sampledRound ops eosTokenId) onToken.observer
      (withCaller : InferenceSession model × SampledLocals → κ → _)
      (streamingRound ops eosTokenId onToken) := by
  rintro ⟨s, locals⟩ k
  have hdraw := run_drawToken ops s locals
  have hdraw' := run_drawToken ops (s, k) locals
  rcases hsample : (HostLogitSampler.sample ops locals.logits).run locals.sampler with
    ⟨e | token, sampler⟩
  · rw [hsample] at hdraw hdraw'
    rw [sampledRound, streamingRound, Fallible.run_bind_error hdraw, withCaller,
      Fallible.run_bind_error hdraw']
    rfl
  · rw [hsample] at hdraw hdraw'
    rw [sampledRound, streamingRound, Fallible.run_bind_ok hdraw, withCaller,
      Fallible.run_bind_ok hdraw', Fallible.run_bind, Fallible.run_bind, Fallible.run_zoom,
      Fallible.run_zoom]
    rcases (decodeOne token).run s with ⟨e | logits, s'⟩
    · rfl
    · refine Prod.ext (congrArg (fun last => Except.ok (token, last)) ?_) rfl
      exact Bool.decide_or _ _

variable {ops}

section Runs

variable {inputIds : List UInt32} {generation : GenerationConfig} {sampling : SamplingConfig}
  {onToken : OnToken κ} {s s₁ : InferenceSession model}

theorem requirePositions_eq_ok
    (h : inputIds.length + generation.maxNewTokens ≤ s.capacity) (what : String) :
    requirePositions what s inputIds generation = .ok ⟨⟩ := by
  have hlimit : inputIds.length + generation.maxNewTokens < wordLimit :=
    h.trans_lt (maxPositionEmbeddings_lt model.config)
  rw [requirePositions, checkedAdd_of_lt hlimit, orInvalid, Except.ok_bind,
    if_neg (Nat.not_lt.2 h)]

theorem requirePositions_eq_error
    (h : ¬ inputIds.length + generation.maxNewTokens ≤ s.capacity) (what : String) :
    ∃ e, requirePositions what s inputIds generation = .error e := by
  by_cases hlimit : inputIds.length + generation.maxNewTokens < wordLimit
  · simp only [requirePositions, checkedAdd_of_lt hlimit, orInvalid, Except.ok_bind,
      if_pos (Nat.not_le.1 h)]
    exact ⟨_, rfl⟩
  · rw [requirePositions, checkedAdd, if_neg hlimit]
    exact ⟨_, rfl⟩

/-- A generation that has room and starts is its rounds. -/
private theorem run_generateSampled_of_start {locals : SampledLocals}
    (hroom : inputIds.length + generation.maxNewTokens ≤ s.capacity)
    (hstart : (startSampling ops inputIds generation sampling).run s = (.ok locals, s₁)) :
    let rounds := (Fallible.collect (sampledRound ops generation.eosTokenId)
      generation.maxNewTokens).run (s₁, locals)
    (generateSampled ops inputIds generation sampling).run s =
      (rounds.1.map (·, rounds.2.2.sampler), rounds.2.1) := by
  rw [generateSampled, Fallible.run_bind_ok (Fallible.run_get s), requirePositions_eq_ok hroom,
    Fallible.ofExcept_ok_bind, Fallible.run_bind_ok hstart, Fallible.run_bind,
    Fallible.run_withLocals]
  rcases (Fallible.collect (sampledRound ops generation.eosTokenId)
    generation.maxNewTokens).run (s₁, locals) with ⟨e | generated, s₂⟩ <;> rfl

private theorem run_generateSampled_of_error {e : NnisError}
    (hroom : inputIds.length + generation.maxNewTokens ≤ s.capacity)
    (hstart : (startSampling ops inputIds generation sampling).run s = (.error e, s₁)) :
    (generateSampled ops inputIds generation sampling).run s = (.error e, s₁) := by
  rw [generateSampled, Fallible.run_bind_ok (Fallible.run_get s), requirePositions_eq_ok hroom,
    Fallible.ofExcept_ok_bind, Fallible.run_bind_error hstart]

/-- A streaming generation that has room and starts is its rounds. -/
private theorem run_generateSampledStreaming_of_start {locals : SampledLocals} {k : κ}
    (hroom : inputIds.length + generation.maxNewTokens ≤ s.capacity)
    (hstart : (startSampling ops inputIds generation sampling).run s = (.ok locals, s₁)) :
    let rounds := (Fallible.collect (streamingRound ops generation.eosTokenId onToken)
      generation.maxNewTokens).run (withCaller (s₁, locals) k)
    (generateSampledStreaming ops inputIds generation sampling onToken).run (s, k) =
      (rounds.1.map (·, rounds.2.2.sampler), rounds.2.1) := by
  rw [generateSampledStreaming, Fallible.run_bind_ok (Fallible.run_get (s, k))]
  dsimp only
  rw [requirePositions_eq_ok hroom, Fallible.ofExcept_ok_bind, Fallible.run_bind,
    Fallible.run_zoom, hstart, withCaller]
  dsimp only
  rw [Fallible.run_bind, Fallible.run_withLocals]
  rcases (Fallible.collect (streamingRound ops generation.eosTokenId onToken)
    generation.maxNewTokens).run ((s₁, k), locals) with ⟨e | generated, s₂⟩ <;> rfl

private theorem run_generateSampledStreaming_of_error {e : NnisError} {k : κ}
    (hroom : inputIds.length + generation.maxNewTokens ≤ s.capacity)
    (hstart : (startSampling ops inputIds generation sampling).run s = (.error e, s₁)) :
    (generateSampledStreaming ops inputIds generation sampling onToken).run (s, k) =
      (.error e, (s₁, k)) := by
  rw [generateSampledStreaming, Fallible.run_bind_ok (Fallible.run_get (s, k))]
  dsimp only
  rw [requirePositions_eq_ok hroom, Fallible.ofExcept_ok_bind, Fallible.run_bind,
    Fallible.run_zoom, hstart]

/-- Without room both fail at once, each with its own text. -/
private theorem run_of_no_room (ops : WeightArithmetic W) (sampling : SamplingConfig)
    (onToken : OnToken κ) (k : κ)
    (h : ¬ inputIds.length + generation.maxNewTokens ≤ s.capacity) :
    ∃ e e', requirePositions "prompt + sampled generation" s inputIds generation = .error e ∧
      requirePositions "prompt + sampled streaming generation" s inputIds generation = .error e' ∧
      (generateSampled ops inputIds generation sampling).run s = (.error e, s) ∧
      (generateSampledStreaming ops inputIds generation sampling onToken).run (s, k) =
        (.error e', (s, k)) := by
  obtain ⟨e, he⟩ := requirePositions_eq_error h "prompt + sampled generation"
  obtain ⟨e', he'⟩ := requirePositions_eq_error h "prompt + sampled streaming generation"
  refine ⟨e, e', he, he', ?_, ?_⟩
  · rw [generateSampled, Fallible.run_bind_ok (Fallible.run_get s), he]
    rfl
  · rw [generateSampledStreaming, Fallible.run_bind_ok (Fallible.run_get (s, k))]
    dsimp only
    rw [he']
    rfl

end Runs

/-- Streaming agrees with the generation of a batch, whatever the environment and the callback
answer. If the callback always continues, both return the same tokens and leave the same sampler and
session, and the callback has been shown these tokens; a request without room is rejected by both,
each with its own text, and every other error is the same. If the callback first stops at a token,
streaming returns what the batch returns with a budget that ends there, and the callback has been
shown just these tokens. -/
theorem streaming_agrees (inputIds : List UInt32) (generation : GenerationConfig)
    (sampling : SamplingConfig) (onToken : OnToken κ) (s : InferenceSession model) (k : κ) :
    let batch (budget : ℕ) := (generateSampled ops inputIds
      { generation with maxNewTokens := budget } sampling).run s
    let streaming := (generateSampledStreaming ops inputIds generation sampling onToken).run (s, k)
    let n := generation.maxNewTokens
    (onToken.observer.Continues →
        streaming.1.toOption = (batch n).1.toOption ∧ streaming.2.1 = (batch n).2 ∧
          (inputIds.length + n ≤ s.capacity → streaming.1 = (batch n).1) ∧
          (s.capacity < inputIds.length + n → ∃ e e',
            requirePositions "prompt + sampled generation" s inputIds generation = .error e ∧
            requirePositions "prompt + sampled streaming generation" s inputIds generation =
              .error e' ∧ (batch n).1 = .error e ∧ streaming.1 = .error e') ∧
          ∀ tokens sampler, (batch n).1 = .ok (tokens, sampler) →
            streaming.2.2 = onToken.observer.after k tokens) ∧
      (∀ tokens sampler i, (batch n).1 = .ok (tokens, sampler) → i < tokens.length →
        onToken.observer.FirstHalt k tokens i →
          ∃ sampler' s', batch (i + 1) = (.ok (tokens.take (i + 1), sampler'), s') ∧
            streaming = (.ok (tokens.take (i + 1), sampler'),
              (s', onToken.observer.after k (tokens.take (i + 1))))) ∧
      (∀ tokens sampler s' i, i < n → inputIds.length + n ≤ s.capacity →
        batch (i + 1) = (.ok (tokens, sampler), s') → tokens.length = i + 1 →
          onToken.observer.FirstHalt k tokens i →
            streaming = (.ok (tokens, sampler), (s', onToken.observer.after k tokens))) := by
  intro batch streaming n
  have hobserved : Fallible.Observed (sampledRound ops generation.eosTokenId) onToken.observer
      (withCaller : InferenceSession model × SampledLocals → κ → _)
      (streamingRound ops generation.eosTokenId onToken) :=
    streamingRound_observed ops generation.eosTokenId onToken
  -- If the callback stops at the last token of a smaller budget, that is where it ends.
  have hstop : ∀ tokens sampler s' i, i < n → inputIds.length + n ≤ s.capacity →
      batch (i + 1) = (.ok (tokens, sampler), s') → tokens.length = i + 1 →
        onToken.observer.FirstHalt k tokens i →
          streaming = (.ok (tokens, sampler), (s', onToken.observer.after k tokens)) := by
    intro tokens sampler s' i hi hroom hok hlength hhalt
    have hsmall : inputIds.length + (i + 1) ≤ s.capacity := by omega
    rcases hstart : (startSampling ops inputIds generation sampling).run s with ⟨e | locals, s₁⟩
    · have hrun : batch (i + 1) = _ := run_generateSampled_of_error hsmall hstart
      rw [hok] at hrun
      exact absurd (congrArg Prod.fst hrun) nofun
    · have hrun : batch (i + 1) = _ := run_generateSampled_of_start hsmall hstart
      rcases hrounds : (Fallible.collect (sampledRound ops generation.eosTokenId) (i + 1)).run
        (s₁, locals) with ⟨e | generated, s₂⟩
      · rw [hok, hrounds] at hrun
        exact absurd (congrArg Prod.fst hrun) nofun
      · rw [hok, hrounds] at hrun
        obtain ⟨⟨⟩, rfl⟩ := Prod.mk.inj hrun
        refine (run_generateSampledStreaming_of_start hroom hstart).trans ?_
        rw [hobserved.run_collect_of_firstHalt hrounds hlength hhalt hi]
        rfl
  refine ⟨fun hcontinues => ?_, fun tokens sampler i hok hi hhalt => ?_, hstop⟩
  · by_cases hroom : inputIds.length + n ≤ s.capacity
    · rcases hstart : (startSampling ops inputIds generation sampling).run s with ⟨e | locals, s₁⟩
      · have hbatch : batch n = _ := run_generateSampled_of_error hroom hstart
        have hstreaming : streaming = _ := run_generateSampledStreaming_of_error hroom hstart
        rw [hbatch, hstreaming]
        exact ⟨rfl, rfl, fun _ => rfl, fun hlt => absurd hroom (Nat.not_le.2 hlt), nofun⟩
      · have hbatch : batch n = _ := run_generateSampled_of_start hroom hstart
        have hstreaming : streaming = _ := run_generateSampledStreaming_of_start hroom hstart
        obtain ⟨k', hrun, hafter⟩ := hobserved.run_collect hcontinues n (s₁, locals) k
        rw [hrun] at hstreaming
        rw [hbatch, hstreaming]
        refine ⟨rfl, rfl, fun _ => rfl, fun hlt => absurd hroom (Nat.not_le.2 hlt),
          fun tokens sampler hok => hafter tokens ?_⟩
        rcases hgenerated : ((Fallible.collect (sampledRound ops generation.eosTokenId) n).run
          (s₁, locals)).1 with e | generated
        · rw [hgenerated] at hok
          exact absurd hok nofun
        · rw [hgenerated] at hok
          exact congrArg _ (Prod.mk.inj (Except.ok.inj hok)).1
    · obtain ⟨e, e', he, he', hbatch, hstreaming⟩ := run_of_no_room ops sampling onToken k hroom
      have hbatch : batch n = (.error e, s) := hbatch
      have hstreaming : streaming = (.error e', (s, k)) := hstreaming
      rw [hbatch, hstreaming]
      exact ⟨rfl, rfl, fun hle => absurd hle hroom, fun _ => ⟨e, e', he, he', rfl, rfl⟩, nofun⟩
  · have hroom : inputIds.length + n ≤ s.capacity := by
      by_contra hroom
      obtain ⟨e, -, -, -, hbatch, -⟩ := run_of_no_room ops sampling onToken k hroom
      have hbatch : batch n = (.error e, s) := hbatch
      rw [hbatch] at hok
      exact absurd hok nofun
    rcases hstart : (startSampling ops inputIds generation sampling).run s with ⟨e | locals, s₁⟩
    · have hbatch : batch n = _ := run_generateSampled_of_error hroom hstart
      rw [hbatch] at hok
      exact absurd hok nofun
    · have hbatch : batch n = _ := run_generateSampled_of_start hroom hstart
      rcases hrounds : (Fallible.collect (sampledRound ops generation.eosTokenId) n).run
        (s₁, locals) with ⟨e | generated, s₂⟩
      · rw [hbatch, hrounds] at hok
        exact absurd hok nofun
      · rw [hbatch, hrounds] at hok
        obtain ⟨rfl, -⟩ := Prod.mk.inj (Except.ok.inj hok)
        have hin : i < n := hi.trans_le (Fallible.length_collect_le hrounds)
        obtain ⟨s₃, htake⟩ := Fallible.collect_take hrounds hi
        have hsmall : batch (i + 1) = _ :=
          run_generateSampled_of_start (show inputIds.length + (i + 1) ≤ s.capacity by omega) hstart
        rw [htake] at hsmall
        refine ⟨_, _, hsmall, hstop _ _ _ i hin hroom hsmall ?_ hhalt.take⟩
        rw [List.length_take_of_le hi]

end InferenceSession

end NNIS
