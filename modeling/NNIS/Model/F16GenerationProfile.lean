import NNIS.Model.F16ReferenceRuntime

/-!
# Profiled greedy generation

`profile_greedy_edge_generation_semantics` of the F16 reference runtime
(`nnis-model/src/f16_reference_runtime.rs`): greedy generation with events around the prefill and
around every forward of a generated token. The last token is picked and not fed to the model. Each
event is created, recorded, waited for and read at most once, so the environment answers these calls
by event.

## Main definitions

* `EventDriver`, `F16ReferenceGenerationProfile`.
* `F16ReferenceSession.profileGreedyEdgeGenerationSemantics`.
-/

set_option autoImplicit false

namespace NNIS

/-- The events of a profile. -/
inductive ProfileEvent
  | prefillStart
  | prefillEnd
  | forwardStart (step : ℕ)
  | forwardEnd (step : ℕ)
  deriving DecidableEq

/-- The answers of the environment to the calls on events. -/
structure EventDriver where
  create : ProfileEvent → Except NnisError PUnit
  record : ProfileEvent → Except NnisError PUnit
  synchronize : ProfileEvent → Except NnisError PUnit
  /-- The milliseconds from one event to another. -/
  elapsed : (start finish : ProfileEvent) → Except NnisError F32

/-- The environment accepts every call on an event. -/
structure EventDriver.Accepting (events : EventDriver) : Prop where
  create : ∀ event, events.create event = .ok ⟨⟩
  record : ∀ event, events.record event = .ok ⟨⟩
  synchronize : ∀ event, events.synchronize event = .ok ⟨⟩
  elapsed : ∀ start finish, ∃ ms, events.elapsed start finish = .ok ms

/-- What a profile reports. -/
structure F16ReferenceGenerationProfile where
  schemaVersion : UInt32
  metricDefinition : String
  generatedTokens : ℕ
  generationForwardRuns : ℕ
  prefillGpuMs : F64
  generationForwardGpuMs : List F64
  generationStageTotalGpuMs : F64
  generationTokensPerSecondEdgeDefinition : F64
  generatedIds : List UInt32
  sessionPositionAfterProfile : ℕ
  samplingIncludedInGenerationStageGpuTime : Bool
  finalGeneratedTokenConsumedByModel : Bool

namespace EventDriver

variable (events : EventDriver)

/-- Wait for an event and read the milliseconds since another one. -/
def elapsedMs (start finish : ProfileEvent) : Except NnisError F64 := do
  events.synchronize finish
  let ms ← events.elapsed start finish
  return ms.convert binary64

/-- The milliseconds of the forwards of a profile. -/
def forwardMs (forwards : ℕ) : Except NnisError (List F64) :=
  (List.range forwards).mapM fun index =>
    events.elapsedMs (.forwardStart (index + 1)) (.forwardEnd (index + 1))

/-- The milliseconds of all forwards. -/
def totalMs (forwardMs : List F64) : F64 := forwardMs.foldl Binary.add (.zero false)

/-- A total is usable when it is finite and positive. -/
def Measured (total : F64) : Prop := total.isFinite = true ∧ total.le (.zero false) = false

end EventDriver

namespace F16ReferenceSession

open Session

variable {model : F16ReferenceModel} (events : EventDriver)

/-- One forward of the current token between its events, and the token picked after it. -/
def profileForward (step : ℕ) (generated : List UInt32) :
    Fallible (F16ReferenceSession model) NnisError (List UInt32) := do
  Fallible.ofExcept (events.create (.forwardStart step))
  Fallible.ofExcept (events.create (.forwardEnd step))
  Fallible.ofExcept (events.record (.forwardStart step))
  enqueueCurrentToken
  Fallible.ofExcept (events.record (.forwardEnd step))
  enqueueTopOne
  call (.recordToken step)
  let s ← Fallible.get
  return generated ++ [s.currentToken]

/-- The work of a profile: the prefill and the first token, then the forwards of all tokens but the
last one. -/
def profileWork (inputIds : List UInt32) (maxNewTokens : ℕ) :
    Fallible (F16ReferenceSession model) NnisError (List UInt32) := do
  Fallible.ofExcept (events.record .prefillStart)
  enqueuePrefill inputIds
  Fallible.ofExcept (events.record .prefillEnd)
  enqueueTopOne
  call (.recordToken 0)
  let s ← Fallible.get
  Fallible.foldRange (maxNewTokens - 1) [s.currentToken] fun index =>
    profileForward events (index + 1)

/-- The report of a profile. -/
def profileReport (maxNewTokens : ℕ) (prefillGpuMs : F64) (generationForwardGpuMs : List F64)
    (generated : List UInt32) (position : ℕ) : F16ReferenceGenerationProfile where
  schemaVersion := 1
  metricDefinition := "generated_tokens / cumulative GPU time of N-1 decoder forwards " ++
    "after prefill; CUDA events bracket decoder forward only; top-1 sampling excluded; " ++
    "final generated token not consumed"
  generatedTokens := maxNewTokens
  generationForwardRuns := generationForwardGpuMs.length
  prefillGpuMs := prefillGpuMs
  generationForwardGpuMs := generationForwardGpuMs
  generationStageTotalGpuMs := EventDriver.totalMs generationForwardGpuMs
  generationTokensPerSecondEdgeDefinition :=
    (Binary.ofNat maxNewTokens).div
      ((EventDriver.totalMs generationForwardGpuMs).div (.ofNat 1000))
  generatedIds := generated
  sessionPositionAfterProfile := position
  samplingIncludedInGenerationStageGpuTime := false
  finalGeneratedTokenConsumedByModel := false

/-- The report of a profile whose work is done: the times are read and checked, and then the
tokens. -/
def readProfile (maxNewTokens : ℕ) (generated : List UInt32) :
    Fallible (F16ReferenceSession model) NnisError F16ReferenceGenerationProfile := do
  let prefillGpuMs ← Fallible.ofExcept (events.elapsedMs .prefillStart .prefillEnd)
  let generationForwardGpuMs ← Fallible.ofExcept (events.forwardMs (maxNewTokens - 1))
  let total := EventDriver.totalMs generationForwardGpuMs
  if !total.isFinite || total.le (.zero false) then
    Fallible.fail (.unsupported
      "F16 generation-stage CUDA events returned non-positive total GPU time")
  else do
    call .downloadTokens
    let s ← Fallible.get
    return profileReport maxNewTokens prefillGpuMs generationForwardGpuMs generated s.position

/-- Greedy generation of a fixed number of tokens that measures the forwards. -/
def profileGreedyEdgeGenerationSemantics (inputIds : List UInt32) (maxNewTokens : ℕ) :
    Fallible (F16ReferenceSession model) NnisError F16ReferenceGenerationProfile := do
  if maxNewTokens < 2 then
    Fallible.fail (.invalidInput
      "Edge-compatible F16 generation profiling requires at least two generated tokens")
  else do
    Fallible.ofExcept (validatePrompt model.pipeline inputIds (maxNewTokens - 1))
    reset
    call .uploadTokens
    call .allocate
    Fallible.ofExcept (events.create .prefillStart)
    Fallible.ofExcept (events.create .prefillEnd)
    let enqueueResult ← (profileWork events inputIds maxNewTokens).attempt
    let generated ← finish enqueueResult
    readProfile events maxNewTokens generated

end F16ReferenceSession

end NNIS
