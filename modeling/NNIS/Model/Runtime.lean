import NNIS.Model.Session

/-!
# The F32 decoder runtime

The launches of `nnis-model/src/runtime.rs`. The numerical kernels are parameters: each is a
deterministic function that gives the elements of its output buffer. Which kernel a projection
family runs on is the choice of the projection plan and is part of the parameter; the two plans for
the SiLU product differ in their launches and are kept apart.

## Main definitions

* `Model`, `Model.pipeline`, `InferenceSession`.
-/

set_option autoImplicit false

namespace NNIS

/-- The families of projections that a plan assigns a kernel to. -/
inductive ProjectionFamily
  | qO | kV | gateUp | down
  deriving DecidableEq

/-- The plans for the product of the activated gate and the up projection. -/
inductive F32SiluMultiplyKernel
  | separate | fused
  deriving DecidableEq

/-- The elements written by the kernels of the runtime, over weight tensors `T`. -/
structure F32Kernels (T : Type) where
  gather : (table : T) → (token : UInt32) → ℕ → F32
  weightedRmsNorm : (input : List F32) → (weight : T) → ℕ → F32
  project : ProjectionFamily → (input : List F32) → (weight : T) → ℕ → F32
  ropePosition : (heads headDim position : ℕ) → (input : List F32) → ℕ → F32
  cachedAttentionDecode : (query : List F32) → (rows : List (KvRow F32)) → ℕ → F32
  vectorAdd : (left right : List F32) → ℕ → F32
  silu : (gate : List F32) → ℕ → F32
  multiply : (left right : List F32) → ℕ → F32
  siluMultiply : (gate up : List F32) → ℕ → F32
  lmHead : (input : List F32) → (weight : T) → ℕ → F32
  topOne : (logits : List F32) → UInt32

/-- The weights of one layer. -/
structure DecoderLayerWeights (T : Type) where
  inputNorm : T
  qProj : T
  kProj : T
  vProj : T
  oProj : T
  postAttentionNorm : T
  gateProj : T
  upProj : T
  downProj : T

/-- The weights of a model. -/
structure ModelWeights (T : Type) where
  tokenEmbedding : T
  layers : ℕ → DecoderLayerWeights T
  finalNorm : T
  lmHead : T

/-- A model with its kernels and its fusion plan. -/
structure Model where
  Tensor : Type
  config : ModelConfig
  weights : ModelWeights Tensor
  kernels : F32Kernels Tensor
  siluMultiply : F32SiluMultiplyKernel

namespace Model

variable (model : Model)

/-- The launches of a layer up to its rotated query and key. -/
def input (layer position : ℕ) (hidden : List F32) : Batch (List F32 × KvRow F32) := do
  let config := model.config
  let kernels := model.kernels
  let weights := model.weights.layers layer
  let kvWidth := config.keyValueWidth
  let normed ← launch config.hiddenSize (kernels.weightedRmsNorm hidden weights.inputNorm)
  let q ← launch config.hiddenSize (kernels.project .qO normed weights.qProj)
  let k ← launch kvWidth (kernels.project .kV normed weights.kProj)
  let v ← launch kvWidth (kernels.project .kV normed weights.vProj)
  let qRope ← launch config.hiddenSize
    (kernels.ropePosition config.numAttentionHeads config.headDim position q)
  let kRope ← launch kvWidth
    (kernels.ropePosition config.numKeyValueHeads config.headDim position k)
  return (qRope, ⟨kRope, v⟩)

/-- The launches of the SiLU product. -/
def enqueueSiluMultiply (gate up : List F32) : Batch (List F32) :=
  match model.siluMultiply with
  | .separate => do
    let activated ← launch model.config.intermediateSize (model.kernels.silu gate)
    launch model.config.intermediateSize (model.kernels.multiply activated up)
  | .fused => launch model.config.intermediateSize (model.kernels.siluMultiply gate up)

/-- The launches of a layer from its attention to its output. -/
def output (layer : ℕ) (hidden query : List F32) (rows : List (KvRow F32)) :
    Batch (List F32) := do
  let config := model.config
  let kernels := model.kernels
  let weights := model.weights.layers layer
  let attention ← launch config.hiddenSize (kernels.cachedAttentionDecode query rows)
  let projected ← launch config.hiddenSize (kernels.project .qO attention weights.oProj)
  let residual ← launch config.hiddenSize (kernels.vectorAdd hidden projected)
  let normed ← launch config.hiddenSize
    (kernels.weightedRmsNorm residual weights.postAttentionNorm)
  let gate ← launch config.intermediateSize (kernels.project .gateUp normed weights.gateProj)
  let up ← launch config.intermediateSize (kernels.project .gateUp normed weights.upProj)
  let gated ← model.enqueueSiluMultiply gate up
  let mlp ← launch config.hiddenSize (kernels.project .down gated weights.downProj)
  launch config.hiddenSize (kernels.vectorAdd residual mlp)

/-- The pipeline of the runtime. -/
def pipeline : Pipeline F32 where
  config := model.config
  label := ""
  gather token := launch model.config.hiddenSize
    (model.kernels.gather model.weights.tokenEmbedding token)
  input := model.input
  output := model.output
  finalNorm hidden := launch model.config.hiddenSize
    (model.kernels.weightedRmsNorm hidden model.weights.finalNorm)
  lmHead normed := (launch model.config.vocabSize
    (model.kernels.lmHead normed model.weights.lmHead)).value
  topOne := model.kernels.topOne
  length_key _ _ _ := length_launch _ _
  length_value _ _ _ := length_launch _ _
  length_lmHead _ := length_launch _ _

end Model

/-- A session of the F32 runtime. -/
abbrev InferenceSession (model : Model) := Session model.pipeline

/-! ### A small model -/

/-- The value `1.0`. -/
def one : F32 := Binary.ofBits 0x3F800000

theorem eightPositions_pos : 0 < 8 := by decide

/-- A model of one layer and two tokens. Its layer passes the embedding of a token on, and after a
token the logits favour the other one. -/
def alternating : Model where
  Tensor := Unit
  config :=
    { vocabSize := 2
      hiddenSize := 2
      intermediateSize := 1
      numHiddenLayers := 1
      numAttentionHeads := 1
      numKeyValueHeads := 1
      maxPositionEmbeddings := 8
      vocabSize_pos := Nat.two_pos
      hiddenSize_pos := Nat.two_pos
      intermediateSize_pos := Nat.one_pos
      numHiddenLayers_pos := Nat.one_pos
      numAttentionHeads_pos := Nat.one_pos
      numKeyValueHeads_pos := Nat.one_pos
      maxPositionEmbeddings_pos := eightPositions_pos
      heads_dvd := by decide
      keyValueHeads_dvd := by decide
      headDim_even := by decide
      cache_fits := by decide }
  weights := ⟨(), fun _ => ⟨(), (), (), (), (), (), (), (), ()⟩, (), ()⟩
  kernels :=
    { gather := fun _ token _ => if token = 0 then .zero false else one
      weightedRmsNorm := fun input _ i => input.getD i (.zero false)
      project := fun _ input _ i => input.getD i (.zero false)
      ropePosition := fun _ _ _ input i => input.getD i (.zero false)
      cachedAttentionDecode := fun query _ i => query.getD i (.zero false)
      vectorAdd := fun left _ i => left.getD i (.zero false)
      silu := fun gate i => gate.getD i (.zero false)
      multiply := fun left _ i => left.getD i (.zero false)
      siluMultiply := fun gate _ i => gate.getD i (.zero false)
      lmHead := fun input _ i =>
        if (i == 0) = (input.getD 0 (.zero false)).isZero then .zero false else one
      topOne := lowestArgmax }
  siluMultiply := .fused

/-- A new session of the small model. -/
def alternatingSession : InferenceSession alternating :=
  .new .accepting (List.replicate 16 default) (List.replicate 16 default)
    (List.replicate 2 default) 0 (List.length_replicate) (List.length_replicate)
    (List.length_replicate)

/-- The draft of one token. -/
def oneTokenDraft (token : UInt32) : SpeculativeDraftV1 where
  tokens := [token]
  confidences := [one]
  tokens_ne_nil := List.cons_ne_nil _ _
  length_tokens_le := show 1 ≤ 1024 by decide
  length_confidences := rfl
  confidences_inUnitRange := by decide

theorem fourTokens_pos : 0 < 4 := by decide

theorem fourTokens_lt : 4 < 2 ^ 32 := by decide

/-- The schedule that sends up to four tokens to verification. -/
def fourTokens : ConfidenceScheduleV1 where
  minConfidence := .zero false
  maxVerifyTokens := 4
  minConfidence_inUnitRange := inUnitRange_zero
  maxVerifyTokens_pos := fourTokens_pos
  maxVerifyTokens_lt := fourTokens_lt

/-- Counters at the start. -/
def noSteps : SpeculativeAcceptanceStatsV1 := ⟨0, 0, 0, 0, 0, 0, 0⟩

end NNIS
