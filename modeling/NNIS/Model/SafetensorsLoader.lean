import Mathlib.Data.List.Perm.Basic
import NNIS.Memory.Transposed
import NNIS.Numeric.Bytes
import NNIS.Rt.Driver

/-!
# Loading a checkpoint

The tensors of a checkpoint as `nnis-model/src/safetensors_loader.rs` brings them into the weight
graph: a tensor of a known name is checked, decoded, transposed where its file order differs, and
stored in the type of the execution. A checkpoint with tied embeddings has no head of its own; the
head is then made from the loaded embedding. The files have been read and taken apart; what a
device buffer holds is the list that was uploaded to it.

## Main definitions

* `SafetensorsMetadata`, `TensorView`, `TensorSpec`, `tensorSpec`.
* `HostTensor`, `decodeHostTensor`, `transposeMatrix`, `materializeHostDtype`.
* `loadTensor`, `loadShard`, `addTiedLmHeadIfNeeded`, `loadTensors`.

## Main results

* `transposeMatrix_eq_ok_iff` — what a transposed matrix is.
-/

set_option autoImplicit false

namespace NNIS

namespace Safetensors

/-- The type of a stored weight. -/
inductive WeightDType
  | f32 | bf16
  deriving DecidableEq

/-- The type of the elements of a file tensor. -/
inductive Dtype
  | f32 | bf16
  /-- Another type, with its name and the bytes of an element. -/
  | other (name : String) (bytes : ℕ)
  deriving DecidableEq

namespace Dtype

def size : Dtype → ℕ
  | f32 => 4
  | bf16 => 2
  | other _ bytes => bytes

def text : Dtype → String
  | f32 => "F32"
  | bf16 => "BF16"
  | other name _ => name

end Dtype

def WeightDType.text : WeightDType → String
  | .f32 => "F32"
  | .bf16 => "Bf16"

/-- The geometry and the type that an accepted configuration declares. -/
structure SafetensorsMetadata where
  numHiddenLayers : ℕ
  hiddenSize : ℕ
  intermediateSize : ℕ
  numKeyValueHeads : ℕ
  headDim : ℕ
  vocabSize : ℕ
  tieWordEmbeddings : Bool
  weightDtype : WeightDType
  /-- The key and value heads are among the attention heads, which make up the hidden size. -/
  keyValueWidth_le : numKeyValueHeads * headDim ≤ hiddenSize
  hiddenSize_lt : hiddenSize < wordLimit

/-- A tensor of a file. -/
structure TensorView where
  name : String
  dtype : Dtype
  shape : List ℕ
  data : List UInt8

/-- What becomes of a file tensor. -/
structure TensorSpec where
  internalName : String
  hfShape : List ℕ
  internalShape : List ℕ
  transpose : Bool

/-- A tensor in host memory. -/
inductive HostTensor
  | f32 (values : List F32)
  | bf16 (values : List UInt16)

/-- The loaded tensors with their shapes. -/
abbrev Tensors := String → Option (List ℕ × HostTensor)

/-! ### Names -/

/-- The tensors of one layer: the names, the shape in the file, the shape of the graph, and whether
the two differ in their order. -/
def layerTensors (hidden intermediate kvWidth : ℕ) :
    List (String × String × List ℕ × List ℕ × Bool) :=
  [("input_layernorm.weight", "input_norm", [hidden], [hidden], false),
    ("self_attn.q_proj.weight", "q_proj", [hidden, hidden], [hidden, hidden], true),
    ("self_attn.k_proj.weight", "k_proj", [kvWidth, hidden], [hidden, kvWidth], true),
    ("self_attn.v_proj.weight", "v_proj", [kvWidth, hidden], [hidden, kvWidth], true),
    ("self_attn.o_proj.weight", "o_proj", [hidden, hidden], [hidden, hidden], true),
    ("mlp.gate_proj.weight", "gate_proj", [intermediate, hidden], [hidden, intermediate], true),
    ("mlp.up_proj.weight", "up_proj", [intermediate, hidden], [hidden, intermediate], true),
    ("mlp.down_proj.weight", "down_proj", [hidden, intermediate], [intermediate, hidden], true),
    ("post_attention_layernorm.weight", "post_attention_norm", [hidden], [hidden], false)]

/-- The tensor of one layer with a name. -/
def layerSpec (metadata : SafetensorsMetadata) (kvWidth : ℕ) (hfName : String) (layer : ℕ) :
    Option TensorSpec :=
  ((layerTensors metadata.hiddenSize metadata.intermediateSize kvWidth).find? fun entry =>
    hfName = s!"model.layers.{layer}." ++ entry.1).map fun entry =>
      ⟨s!"layers.{layer}." ++ entry.2.1, entry.2.2.1, entry.2.2.2.1, entry.2.2.2.2⟩

/-- The tensors outside the layers. -/
def directSpec (metadata : SafetensorsMetadata) (hfName : String) : Option TensorSpec :=
  let hidden := metadata.hiddenSize
  let vocab := metadata.vocabSize
  if hfName = "model.embed_tokens.weight" then
    some ⟨"token_embedding", [vocab, hidden], [vocab, hidden], false⟩
  else if hfName = "model.norm.weight" then some ⟨"final_norm", [hidden], [hidden], false⟩
  else if hfName = "lm_head.weight" then
    some ⟨"lm_head", [vocab, hidden], [hidden, vocab], true⟩
  else none

/-- What becomes of a tensor with a name, if the graph knows it. -/
def tensorSpec (hfName : String) (metadata : SafetensorsMetadata) : Option TensorSpec := do
  let kvWidth ← checkedMul metadata.numKeyValueHeads metadata.headDim
  match directSpec metadata hfName with
  | some spec => some spec
  | none => (List.range metadata.numHiddenLayers).findSome? (layerSpec metadata kvWidth hfName)

/-! ### One tensor -/

/-- The types that can be loaded. -/
def dtypeToWeightDtype : Dtype → Outcome NnisError WeightDType
  | .f32 => .ok .f32
  | .bf16 => .ok .bf16
  | .other name _ => .raise (.unsupported (s!"unsupported Safetensors dtype {name}; " ++
      "supported source dtypes are F32 and BF16"))

/-- The little-endian halfwords of a list of bytes. -/
def halfwords : List UInt8 → List UInt16
  | b₀ :: b₁ :: rest => UInt16.ofNat (b₀.toNat + 2 ^ 8 * b₁.toNat) :: halfwords rest
  | _ => []

/-- Decode the elements of a file tensor. -/
def decodeHostTensor (data : List UInt8) (dtype : Dtype) (elements : ℕ) :
    Outcome NnisError HostTensor := do
  let expected ← Outcome.okOr (checkedMul elements dtype.size)
    (.invalidInput "Safetensors byte length overflows usize")
  Outcome.require (data.length = expected)
    (.invalidInput (s!"Safetensors tensor has {data.length} bytes; dtype {dtype.text} and " ++
      s!"{elements} elements require {expected}"))
  match dtype with
  | .f32 => return .f32 (F32.words data)
  | .bf16 => return .bf16 (halfwords data)
  | .other name _ => .raise (.unsupported (s!"unsupported Safetensors dtype {name}; " ++
      "supported source dtypes are F32 and BF16"))

/-- Transpose a matrix that is stored row by row. -/
def transposeMatrix {α : Type} [Inhabited α] (values : List α) (rows cols : ℕ) :
    Outcome NnisError (List α) := do
  let elements ← Outcome.okOr (checkedMul rows cols)
    (.invalidInput "matrix transpose shape overflows usize")
  Outcome.require (values.length = elements)
    (.invalidInput (s!"matrix transpose expected {elements} values for ({rows}, {cols}); got " ++
      s!"{values.length}"))
  Outcome.transposeLoop values rows cols (List.replicate elements default)

/-- Transpose a tensor in host memory. -/
def transposeHost (host : HostTensor) (rows cols : ℕ) : Outcome NnisError HostTensor :=
  match host with
  | .f32 values => do return .f32 (← transposeMatrix values rows cols)
  | .bf16 values => do return .bf16 (← transposeMatrix values rows cols)

/-- Widen a halfword. -/
def widen (bits : UInt16) : F32 := Binary.ofBits (bits.toNat * 2 ^ 16)

/-- Store a tensor in the type of the execution. -/
def materializeHostDtype (host : HostTensor) (executionDtype : WeightDType) :
    Outcome NnisError HostTensor :=
  match host, executionDtype with
  | .bf16 values, .f32 => .ok (.f32 (values.map widen))
  | .f32 values, .f32 => .ok (.f32 values)
  | .bf16 values, .bf16 => .ok (.bf16 values)
  | .f32 _, .bf16 => .raise (.unsupported
      "Safetensors loading does not implicitly narrow F32 weights to BF16")

/-- The number of elements of a shape. -/
def shapeElements (shape : List ℕ) : Outcome NnisError ℕ :=
  shape.foldlM (fun product dimension => Outcome.okOr (checkedMul product dimension)
    (.invalidInput "Safetensors tensor shape overflows usize")) 1

/-- Bring a tensor into the order of the graph. -/
def orient (spec : TensorSpec) (host : HostTensor) : Outcome NnisError HostTensor :=
  if spec.transpose then do
    let rows ← Outcome.index spec.hfShape 0
    let cols ← Outcome.index spec.hfShape 1
    transposeHost host rows cols
  else .ok host

/-- Load a tensor of a known name. -/
def loadKnown (metadata : SafetensorsMetadata) (executionDtype : WeightDType) (view : TensorView)
    (spec : TensorSpec) : Outcome NnisError HostTensor := do
  Outcome.require (view.shape = spec.hfShape)
    (.invalidInput (s!"tensor {view.name} has Safetensors shape {view.shape}; expected " ++
      s!"{spec.hfShape}"))
  let sourceDtype ← dtypeToWeightDtype view.dtype
  Outcome.require (sourceDtype = metadata.weightDtype)
    (.invalidInput (s!"tensor {view.name} uses {sourceDtype.text}; config.json declares " ++
      s!"{metadata.weightDtype.text}"))
  let elements ← shapeElements view.shape
  let host ← decodeHostTensor view.data view.dtype elements
  let host ← orient spec host
  materializeHostDtype host executionDtype

/-! ### Checkpoints -/

/-- Add a tensor under a name that is not taken. -/
def insertTensor (tensors : Tensors) (name : String) (shape : List ℕ) (tensor : HostTensor) :
    Outcome NnisError Tensors :=
  match tensors name with
  | some _ => .raise (.invalidInput s!"duplicate logical tensor {name} across Safetensors files")
  | none => .ok (Function.update tensors name (some (shape, tensor)))

/-- Load one tensor of a file, if the graph knows its name. -/
def loadTensor (metadata : SafetensorsMetadata) (executionDtype : WeightDType) (tensors : Tensors)
    (view : TensorView) : Outcome NnisError Tensors :=
  match tensorSpec view.name metadata with
  | none => .ok tensors
  | some spec => do
    let host ← loadKnown metadata executionDtype view spec
    insertTensor tensors spec.internalName spec.internalShape host

/-- Load the tensors of one file. -/
def loadShard (metadata : SafetensorsMetadata) (executionDtype : WeightDType) (tensors : Tensors)
    (views : List TensorView) : Outcome NnisError Tensors :=
  views.foldlM (loadTensor metadata executionDtype) tensors

/-- Make the head of a checkpoint with tied embeddings that has none. -/
def addTiedLmHeadIfNeeded (metadata : SafetensorsMetadata) (tensors : Tensors) :
    Outcome NnisError Tensors :=
  if (tensors "lm_head").isSome ∨ metadata.tieWordEmbeddings = false then .ok tensors
  else do
    let (_, embedding) ← Outcome.okOr (tensors "token_embedding")
      (.invalidInput "token_embedding missing for tied lm_head")
    let tied ← transposeHost embedding metadata.vocabSize metadata.hiddenSize
    insertTensor tensors "lm_head" [metadata.hiddenSize, metadata.vocabSize] tied

/-- Load the tensors of a checkpoint. -/
def loadTensors (metadata : SafetensorsMetadata) (executionDtype : WeightDType)
    (shards : List (List TensorView)) : Outcome NnisError Tensors := do
  let tensors ← shards.foldlM (loadShard metadata executionDtype) fun _ => none
  addTiedLmHeadIfNeeded metadata tensors

/-! ### Transposing -/

/-- A matrix of the right size is transposed. -/
theorem transposeMatrix_eq_ok_iff {α : Type} [Inhabited α] {values output : List α}
    {rows cols : ℕ} :
    transposeMatrix values rows cols = .ok output ↔ rows * cols < wordLimit ∧
      values.length = rows * cols ∧ output = transposed rows cols values default := by
  rw [transposeMatrix, Except.bind_eq_ok_iff]
  constructor
  · rintro ⟨elements, helements, h⟩
    obtain ⟨rfl, hfits⟩ := checkedMul_eq_some_iff.1 (Outcome.okOr_eq_ok_iff.1 helements)
    obtain ⟨_, hrequire, h⟩ := Except.bind_eq_ok_iff.1 h
    have hlength := Outcome.require_eq_ok_iff.1 hrequire
    rw [Outcome.transposeLoop_eq hlength] at h
    exact ⟨hfits, hlength, (Except.ok.inj h).symm⟩
  · rintro ⟨hfits, hlength, rfl⟩
    refine ⟨_, Outcome.okOr_eq_ok_iff.2 (checkedMul_of_lt hfits), ?_⟩
    rw [Outcome.require_of _ hlength, Except.ok_bind, Outcome.transposeLoop_eq hlength]

end Safetensors

end NNIS
