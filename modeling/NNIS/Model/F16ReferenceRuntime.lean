import NNIS.Model.Session

/-!
# The F16 reference runtime

The launches of `nnis-model/src/f16_reference_runtime.rs` for each projection layout. Device
elements are 16-bit words, the logits are single precision. The kernels are parameters, as in the
F32 runtime; the attention kernel, whose choice depends on the number of active rows, is one
parameter.

## Main definitions

* `F16ReferenceModel`, `F16ReferenceModel.pipeline`, `F16ReferenceSession`.
-/

set_option autoImplicit false

namespace NNIS

/-- The projection layouts of the reference runtime. -/
inductive F16ReferenceProjectionLayout
  | knReference
  | nkTransposedCandidate
  | nkTransposedFusedGroupsCandidate
  | nkTransposedFusedMlpCandidate
  deriving DecidableEq

namespace F16ReferenceProjectionLayout

/-- The layouts that load the kernels for fused projection groups. -/
def fusedProjectionCandidate : F16ReferenceProjectionLayout → Bool
  | knReference | nkTransposedCandidate => false
  | nkTransposedFusedGroupsCandidate | nkTransposedFusedMlpCandidate => true

/-- The layouts that load the fused MLP kernel. -/
def fusedMlpCandidate : F16ReferenceProjectionLayout → Bool
  | knReference | nkTransposedCandidate | nkTransposedFusedGroupsCandidate => false
  | nkTransposedFusedMlpCandidate => true

end F16ReferenceProjectionLayout

/-- The elements written by the kernels of the runtime, over weight buffers `T`. -/
structure F16Kernels (T : Type) where
  gather : (table : T) → (token : UInt32) → ℕ → UInt16
  weightedRmsNorm : (input : List UInt16) → (weight : T) → ℕ → UInt16
  projectKn : (input : List UInt16) → (weight : T) → ℕ → UInt16
  projectNk : (input : List UInt16) → (weight : T) → ℕ → UInt16
  /-- One launch that writes the three buffers. -/
  qkvNk : (input : List UInt16) → (q k v : T) → (ℕ → UInt16) × (ℕ → UInt16) × (ℕ → UInt16)
  /-- One launch that writes the two buffers. -/
  gateUpNk : (input : List UInt16) → (gate up : T) → (ℕ → UInt16) × (ℕ → UInt16)
  gateUpSiluNk : (input : List UInt16) → (gate up : T) → ℕ → UInt16
  ropePosition : (heads headDim position : ℕ) → (input : List UInt16) → ℕ → UInt16
  cachedAttentionDecode : (query : List UInt16) → (rows : List (KvRow UInt16)) → ℕ → UInt16
  vectorAdd : (left right : List UInt16) → ℕ → UInt16
  siluMultiply : (gate up : List UInt16) → ℕ → UInt16
  lmHeadKnF32Logits : (input : List UInt16) → (weight : T) → ℕ → F32
  lmHeadNkF32Logits : (input : List UInt16) → (weight : T) → ℕ → F32
  topOne : (logits : List F32) → UInt32

/-- The weights of one layer. -/
structure F16DecoderLayerWeights (T : Type) where
  inputNorm : T
  qProj : T
  kProj : T
  vProj : T
  oProj : T
  postAttentionNorm : T
  gateProj : T
  upProj : T
  downProj : T

/-- The weights of a model. -/
structure F16ModelWeights (T : Type) where
  tokenEmbedding : T
  layers : ℕ → F16DecoderLayerWeights T
  finalNorm : T
  lmHead : T

/-- A model with its kernels and its projection layout. -/
structure F16ReferenceModel where
  Buffer : Type
  config : ModelConfig
  weights : F16ModelWeights Buffer
  kernels : F16Kernels Buffer
  projectionLayout : F16ReferenceProjectionLayout

namespace F16ReferenceModel

variable (model : F16ReferenceModel)

/-- One projection. -/
def enqueueProjection (input : List UInt16) (weight : model.Buffer) (n : ℕ) :
    Batch (List UInt16) :=
  match model.projectionLayout with
  | .knReference => launch n (model.kernels.projectKn input weight)
  | .nkTransposedCandidate | .nkTransposedFusedGroupsCandidate | .nkTransposedFusedMlpCandidate =>
    launch n (model.kernels.projectNk input weight)

/-- The query, key and value projections. -/
def enqueueQkvGroup (input : List UInt16) (qWeight kWeight vWeight : model.Buffer)
    (hidden kvWidth : ℕ) : Batch (List UInt16 × List UInt16 × List UInt16) :=
  if model.projectionLayout.fusedProjectionCandidate then
    let (q, k, v) := model.kernels.qkvNk input qWeight kWeight vWeight
    ⟨1, ((List.range hidden).map q, (List.range kvWidth).map k, (List.range kvWidth).map v)⟩
  else do
    let q ← model.enqueueProjection input qWeight hidden
    let k ← model.enqueueProjection input kWeight kvWidth
    let v ← model.enqueueProjection input vWeight kvWidth
    return (q, k, v)

/-- The gate and up projections. -/
def enqueueGateUpGroup (input : List UInt16) (gateWeight upWeight : model.Buffer)
    (intermediate : ℕ) : Batch (List UInt16 × List UInt16) :=
  if model.projectionLayout.fusedProjectionCandidate then
    let (gate, up) := model.kernels.gateUpNk input gateWeight upWeight
    ⟨1, ((List.range intermediate).map gate, (List.range intermediate).map up)⟩
  else do
    let gate ← model.enqueueProjection input gateWeight intermediate
    let up ← model.enqueueProjection input upWeight intermediate
    return (gate, up)

/-- The gated activation. -/
def enqueueGateUpSilu (input : List UInt16) (gateWeight upWeight : model.Buffer)
    (intermediate : ℕ) : Batch (List UInt16) :=
  if model.projectionLayout.fusedMlpCandidate then
    launch intermediate (model.kernels.gateUpSiluNk input gateWeight upWeight)
  else do
    let (gate, up) ← model.enqueueGateUpGroup input gateWeight upWeight intermediate
    launch intermediate (model.kernels.siluMultiply gate up)

/-- The launches of a layer up to its rotated query and key. -/
def input (layer position : ℕ) (hidden : List UInt16) :
    Batch (List UInt16 × KvRow UInt16) := do
  let config := model.config
  let kernels := model.kernels
  let weights := model.weights.layers layer
  let kvWidth := config.keyValueWidth
  let normed ← launch config.hiddenSize (kernels.weightedRmsNorm hidden weights.inputNorm)
  let (q, k, v) ← model.enqueueQkvGroup normed weights.qProj weights.kProj weights.vProj
    config.hiddenSize kvWidth
  let qRope ← launch config.hiddenSize
    (kernels.ropePosition config.numAttentionHeads config.headDim position q)
  let kRope ← launch kvWidth
    (kernels.ropePosition config.numKeyValueHeads config.headDim position k)
  return (qRope, ⟨kRope, v⟩)

/-- The launches of a layer from its attention to its output. -/
def output (layer : ℕ) (hidden query : List UInt16) (rows : List (KvRow UInt16)) :
    Batch (List UInt16) := do
  let config := model.config
  let kernels := model.kernels
  let weights := model.weights.layers layer
  let attention ← launch config.hiddenSize (kernels.cachedAttentionDecode query rows)
  let projected ← model.enqueueProjection attention weights.oProj config.hiddenSize
  let residual ← launch config.hiddenSize (kernels.vectorAdd hidden projected)
  let normed ← launch config.hiddenSize
    (kernels.weightedRmsNorm residual weights.postAttentionNorm)
  let gated ← model.enqueueGateUpSilu normed weights.gateProj weights.upProj
    config.intermediateSize
  let mlp ← model.enqueueProjection gated weights.downProj config.hiddenSize
  launch config.hiddenSize (kernels.vectorAdd residual mlp)

/-- The logits of a normed hidden value. -/
def enqueueLmHead (normed : List UInt16) : Batch (List F32) :=
  match model.projectionLayout with
  | .knReference => launch model.config.vocabSize
    (model.kernels.lmHeadKnF32Logits normed model.weights.lmHead)
  | .nkTransposedCandidate | .nkTransposedFusedGroupsCandidate | .nkTransposedFusedMlpCandidate =>
    launch model.config.vocabSize (model.kernels.lmHeadNkF32Logits normed model.weights.lmHead)

theorem length_enqueueProjection (input : List UInt16) (weight : model.Buffer) (n : ℕ) :
    (model.enqueueProjection input weight n).value.length = n := by
  unfold enqueueProjection
  split <;> exact length_launch _ _

/-- The pipeline of the runtime. -/
def pipeline : Pipeline UInt16 where
  config := model.config
  label := "F16 "
  gather token := launch model.config.hiddenSize
    (model.kernels.gather model.weights.tokenEmbedding token)
  input := model.input
  output := model.output
  finalNorm hidden := launch model.config.hiddenSize
    (model.kernels.weightedRmsNorm hidden model.weights.finalNorm)
  lmHead normed := (model.enqueueLmHead normed).value
  topOne := model.kernels.topOne
  length_key _ _ _ := length_launch _ _
  length_value layer position hidden := by
    show ((model.enqueueQkvGroup _ _ _ _ _ _).value.2.2).length = _
    unfold enqueueQkvGroup
    split
    · rw [List.length_map, List.length_range]
    · exact model.length_enqueueProjection _ _ _
  length_lmHead normed := by
    unfold enqueueLmHead
    split <;> exact length_launch _ _

end F16ReferenceModel

/-- A session of the F16 reference runtime. -/
abbrev F16ReferenceSession (model : F16ReferenceModel) := Session model.pipeline

end NNIS
