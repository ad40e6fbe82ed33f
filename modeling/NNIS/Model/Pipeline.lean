import NNIS.Numeric.Binary
import NNIS.Rt.KvCache
import NNIS.Decoding.Incremental

/-!
# Decoder pipelines

A session encodes a token by a fixed sequence of kernel launches into its workspace: the gather of
the embedding, for every layer a group of launches up to the rotated query and key, the append of
the key and value rows, a group from the attention over the active rows to the layer's output, and
at the end the final norm and the LM head. The scratch buffers of the workspace are written before
they are read within one token, so a group of launches is a value together with the number of
launches that produce it.

A `Pipeline` collects the groups of a runtime. The F32 runtime (`nnis-model/src/runtime.rs`) and
the F16 reference runtime (`f16_reference_runtime.rs`) are two pipelines of one session program.

## Main definitions

* `ModelConfig`, `Batch`, `Pipeline`.
* `Pipeline.decoder` — the layered decoder that a pipeline computes.
-/

set_option autoImplicit false

namespace NNIS

/-- The shape of a decoder model, as `ModelConfig::validate` accepts it. -/
structure ModelConfig where
  vocabSize : ℕ
  hiddenSize : ℕ
  intermediateSize : ℕ
  numHiddenLayers : ℕ
  numAttentionHeads : ℕ
  numKeyValueHeads : ℕ
  maxPositionEmbeddings : ℕ
  vocabSize_pos : 0 < vocabSize
  hiddenSize_pos : 0 < hiddenSize
  intermediateSize_pos : 0 < intermediateSize
  numHiddenLayers_pos : 0 < numHiddenLayers
  numAttentionHeads_pos : 0 < numAttentionHeads
  numKeyValueHeads_pos : 0 < numKeyValueHeads
  maxPositionEmbeddings_pos : 0 < maxPositionEmbeddings
  heads_dvd : numAttentionHeads ∣ hiddenSize
  keyValueHeads_dvd : numKeyValueHeads ∣ numAttentionHeads
  headDim_even : 2 ∣ hiddenSize / numAttentionHeads
  /-- The cache of a session is allocated from this shape. -/
  cache_fits : numHiddenLayers * numKeyValueHeads * maxPositionEmbeddings *
    (hiddenSize / numAttentionHeads) < wordLimit

namespace ModelConfig

variable (config : ModelConfig)

/-- The dimension of one attention head. -/
def headDim : ℕ := config.hiddenSize / config.numAttentionHeads

/-- The width of one key or value row. -/
def keyValueWidth : ℕ := config.numKeyValueHeads * config.headDim

theorem headDim_pos : 0 < config.headDim :=
  Nat.div_pos (Nat.le_of_dvd config.hiddenSize_pos config.heads_dvd) config.numAttentionHeads_pos

/-- The shape of the cache of a session. -/
def cache : KvCacheConfig where
  layers := config.numHiddenLayers
  heads := config.numKeyValueHeads
  headDim := config.headDim
  capacity := config.maxPositionEmbeddings
  layers_pos := config.numHiddenLayers_pos
  heads_pos := config.numKeyValueHeads_pos
  headDim_pos := config.headDim_pos
  capacity_pos := config.maxPositionEmbeddings_pos
  elements_lt := config.cache_fits

end ModelConfig

/-- A value computed by a number of kernel launches. -/
structure Batch (α : Type) where
  launches : ℕ
  value : α

namespace Batch

instance : Monad Batch where
  pure a := ⟨0, a⟩
  bind m f := ⟨m.launches + (f m.value).launches, (f m.value).value⟩

end Batch

/-- One launch that writes `n` elements of an output buffer. -/
def launch {V : Type} (n : ℕ) (element : ℕ → V) : Batch (List V) :=
  ⟨1, (List.range n).map element⟩

@[simp] theorem length_launch {V : Type} (n : ℕ) (element : ℕ → V) :
    (launch n element).value.length = n := by
  rw [launch, List.length_map, List.length_range]

/-- The launches by which a runtime encodes a token, over device elements `V`. -/
structure Pipeline (V : Type) where
  config : ModelConfig
  /-- What the runtime's own messages begin with. -/
  label : String
  gather : UInt32 → Batch (List V)
  /-- The query of a layer and the row it appends. -/
  input : (layer position : ℕ) → List V → Batch (List V × KvRow V)
  /-- The output of a layer from its input, its query and its active rows. -/
  output : (layer : ℕ) → (hidden query : List V) → List (KvRow V) → Batch (List V)
  finalNorm : List V → Batch (List V)
  /-- The logits, written by one launch. -/
  lmHead : List V → List F32
  /-- The token picked on the device from the logits. -/
  topOne : List F32 → UInt32
  length_key : ∀ layer position hidden,
    (input layer position hidden).value.2.key.length = config.keyValueWidth
  length_value : ∀ layer position hidden,
    (input layer position hidden).value.2.value.length = config.keyValueWidth
  length_lmHead : ∀ normed, (lmHead normed).length = config.vocabSize

namespace Pipeline

variable {V : Type}

/-- The layered decoder that a pipeline computes. -/
def decoder (rt : Pipeline V) : Decoder UInt32 (List V) (KvRow V) (List F32) where
  layers := rt.config.numHiddenLayers
  embed token := (rt.gather token).value
  row layer position hidden := (rt.input layer position hidden).value.2
  block layer position hidden rows :=
    (rt.output layer hidden (rt.input layer position hidden).value.1 rows).value
  head hidden := rt.lmHead (rt.finalNorm hidden).value

end Pipeline

end NNIS
