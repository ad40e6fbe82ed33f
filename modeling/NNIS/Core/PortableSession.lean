import NNIS.Core.KvFp4
import NNIS.Memory.Slice
import NNIS.Semantics.Allocator

/-!
# The portable session surface

The storage modes, errors, model dimensions and the host KV cache of `nnis-core/src/session.rs`. The
cache holds the rows of all layers in one buffer, `[layer][capacity][row_width]`; one logical length
applies to every layer. A cache carries the bounds of its dimensions and that its values are finite,
since rows are appended only after a check.

## Main definitions

* `PortableKvStorageModeV1`, `PortableSessionError`, `SyntheticPortableModelSpecV1`.
* `PortableKvCacheV1`, `PortableKvCacheV1.withStorageMode`, `PortableKvCacheV1.append`,
  `PortableKvCacheV1.truncate`, `PortableKvCacheV1.reset`.
* `PortableKvCacheV1.layerRows` — the committed rows of a layer.

## Main results

* `PortableKvCacheV1.layerPrefix_eq` — the view of the committed rows of a layer.
-/

set_option autoImplicit false

namespace NNIS

/-- Largest accepted vocabulary, hidden size, capacity or layer count. -/
def maxSyntheticSessionDim : ℕ := 1024

/-- Fail-closed errors for the portable session surface and the host KV layout. -/
inductive PortableSessionError
  | invalid (message : String)
  | state (message : String)
  | backend (message : String)
  deriving DecidableEq

/-- The text of an error. -/
def PortableSessionError.text : PortableSessionError → String
  | invalid message => message
  | state message => message
  | backend message => s!"portable session backend: {message}"

/-- Opt-in host KV storage mode. -/
inductive PortableKvStorageModeV1
  | denseF32
  | fp4E2M1 (groupSize : UInt32) (scaleEncoding : Fp4ScaleEncodingV1)
  deriving DecidableEq

/-- The FP4 shadow path is requested. -/
def PortableKvStorageModeV1.isFp4 : PortableKvStorageModeV1 → Bool
  | denseF32 => false
  | fp4E2M1 _ _ => true

/-- Validate the parameters of a mode for a row width, by the layout of a single row. -/
def PortableKvStorageModeV1.validateForRowWidth (mode : PortableKvStorageModeV1) (rowWidth : ℕ) :
    Outcome PortableSessionError PortableKvStorageModeV1 :=
  match mode with
  | .denseF32 => pure mode
  | .fp4E2M1 groupSize scaleEncoding => do
    Outcome.require (rowWidth < 2 ^ 32) (.invalid "portable KV row width exceeds u32")
    let _ ← Outcome.wrap
      (fun error => PortableSessionError.backend
        s!"portable FP4 KV mode rejected by DSV41-3 layout: {Fp4LayoutError.text error}")
      (Fp4E2M1KvLayoutV1.new 1 (UInt32.ofNat rowWidth) groupSize scaleEncoding)
    pure mode

/-! ### Model dimensions -/

/-- Dimensions of the synthetic model. -/
structure SyntheticPortableModelSpecV1 where
  vocabSize : ℕ
  hiddenSize : ℕ
  capacity : ℕ
  layers : ℕ
  vocabSize_mem : 0 < vocabSize ∧ vocabSize ≤ maxSyntheticSessionDim
  hiddenSize_mem : 0 < hiddenSize ∧ hiddenSize ≤ maxSyntheticSessionDim
  capacity_mem : 0 < capacity ∧ capacity ≤ maxSyntheticSessionDim
  layers_mem : 0 < layers ∧ layers ≤ maxSyntheticSessionDim

/-- The check of one dimension. -/
def checkDimension (value : ℕ) :
    Outcome PortableSessionError (PLift (0 < value ∧ value ≤ maxSyntheticSessionDim)) :=
  if h₀ : value = 0 then
    .raise (.invalid "synthetic portable model dimensions must be positive")
  else if h₁ : maxSyntheticSessionDim < value then
    .raise (.invalid "synthetic portable model dimension exceeds v1 maximum")
  else pure ⟨Nat.pos_of_ne_zero h₀, Nat.le_of_not_lt h₁⟩

/-- Validate positive dimensions within the admission ceiling. The product of four such dimensions
fits a word. -/
def SyntheticPortableModelSpecV1.new (vocabSize hiddenSize capacity layers : ℕ) :
    Outcome PortableSessionError SyntheticPortableModelSpecV1 := do
  let ⟨hvocab⟩ ← checkDimension vocabSize
  let ⟨hhidden⟩ ← checkDimension hiddenSize
  let ⟨hcapacity⟩ ← checkDimension capacity
  let ⟨hlayers⟩ ← checkDimension layers
  pure ⟨vocabSize, hiddenSize, capacity, layers, hvocab, hhidden, hcapacity, hlayers⟩

/-! ### The host cache -/

/-- Host-side dense KV cache, `[layer][capacity][row_width]`. -/
structure PortableKvCacheV1 where
  layers : ℕ
  capacity : ℕ
  rowWidth : ℕ
  length : ℕ
  mode : PortableKvStorageModeV1
  storage : List F32
  layers_mem : 0 < layers ∧ layers ≤ maxSyntheticSessionDim
  capacity_mem : 0 < capacity ∧ capacity ≤ maxSyntheticSessionDim
  rowWidth_mem : 0 < rowWidth ∧ rowWidth ≤ maxSyntheticSessionDim
  length_le : length ≤ capacity
  length_storage : storage.length = layers * capacity * rowWidth
  finite_storage : ∀ value ∈ storage, value.isFinite = true

namespace PortableKvCacheV1

/-- Allocate zero-filled storage and record a storage mode. -/
def withStorageMode (layers capacity rowWidth : ℕ) (mode : PortableKvStorageModeV1) :
    Fallible Allocator (Stop PortableSessionError) PortableKvCacheV1 :=
  if h₀ : layers = 0 ∨ capacity = 0 ∨ rowWidth = 0 then
    .ofExcept (Outcome.raise (.invalid "portable KV dimensions must be positive"))
  else if h₁ : maxSyntheticSessionDim < layers ∨ maxSyntheticSessionDim < capacity ∨
      maxSyntheticSessionDim < rowWidth then
    .ofExcept (Outcome.raise (.invalid "portable KV dimension exceeds v1 maximum"))
  else do
    let mode ← .ofExcept (mode.validateForRowWidth rowWidth)
    match ← tryReserveExact (layers * capacity * rowWidth) with
    | .error _ => .ofExcept (Outcome.raise (.invalid "portable KV storage reservation failed"))
    | .ok _ =>
      pure
        { layers, capacity, rowWidth, length := 0, mode
          storage := List.replicate (layers * capacity * rowWidth) (.zero false)
          layers_mem := by omega
          capacity_mem := by omega
          rowWidth_mem := by omega
          length_le := Nat.zero_le _
          length_storage := List.length_replicate
          finite_storage := fun value h => by
            rw [List.eq_of_mem_replicate h]
            decide }

variable (cache : PortableKvCacheV1)

/-- The index of the first value of a row. -/
def rowOffset (layer index : ℕ) : ℕ := (layer * cache.capacity + index) * cache.rowWidth

/-- The committed rows of a layer. -/
def layerRows (layer : ℕ) : List F32 :=
  region cache.storage (cache.rowOffset layer 0) (cache.length * cache.rowWidth)

/-- Contiguous view of the committed rows of a layer. -/
def layerPrefix (layer : ℕ) : Outcome PortableSessionError (List F32) := do
  Outcome.require (layer < cache.layers) (.invalid "portable KV layer index out of range")
  let start := cache.rowOffset layer 0
  Outcome.slice cache.storage start (start + cache.length * cache.rowWidth)

/-- View of one committed row. -/
def row (layer index : ℕ) : Outcome PortableSessionError (List F32) := do
  Outcome.require (layer < cache.layers) (.invalid "portable KV layer index out of range")
  Outcome.require (index < cache.length) (.invalid "portable KV row index out of range")
  let start := cache.rowOffset layer index
  Outcome.slice cache.storage start (start + cache.rowWidth)

/-- The cache with a row of finite values written behind the committed rows of a layer. -/
def writeRow (layer : ℕ) (values : List F32) (h : ∀ value ∈ values, value.isFinite = true) :
    PortableKvCacheV1 :=
  { cache with
    storage := writeRegion cache.storage (cache.rowOffset layer cache.length) values
    length_storage := by rw [length_writeRegion, cache.length_storage]
    finite_storage := fun value hvalue => by
      rw [writeRegion] at hvalue
      split at hvalue
      · rcases List.mem_append.1 hvalue with hvalue | hvalue
        · rcases List.mem_append.1 hvalue with hvalue | hvalue
          · exact cache.finite_storage value (List.mem_of_mem_take hvalue)
          · exact h value hvalue
        · exact cache.finite_storage value (List.mem_of_mem_drop hvalue)
      · exact cache.finite_storage value hvalue }

/-- The cache with one more committed row in every layer, when there is room for it. -/
def grow : PortableKvCacheV1 :=
  if h : cache.length < cache.capacity then
    { cache with
      length := cache.length + 1
      length_le := h }
  else cache

/-- The cache with fewer committed rows. -/
def shorten (length : ℕ) (h : length ≤ cache.length) : PortableKvCacheV1 :=
  { cache with
    length
    length_le := h.trans cache.length_le }

/-- Write the row of one layer behind its committed rows. -/
def appendRow (entry : List F32 × ℕ) :
    Fallible PortableKvCacheV1 (Stop PortableSessionError) PUnit := do
  let cache ← .get
  .ofExcept (Outcome.require (entry.1.length = cache.rowWidth)
    (.invalid "portable KV append row width mismatch"))
  if h : ∀ value ∈ entry.1, value.isFinite = true then
    .modify fun cache => cache.writeRow entry.2 entry.1 h
  else
    .ofExcept (Outcome.raise (.invalid "portable KV append rejects non-finite values"))

/-- Append one row to every layer. -/
def append (rows : List (List F32)) :
    Fallible PortableKvCacheV1 (Stop PortableSessionError) PUnit := do
  let cache ← .get
  .ofExcept (Outcome.require (rows.length = cache.layers)
    (.invalid "portable KV append requires one row slice per layer"))
  .ofExcept (Outcome.require (cache.length < cache.capacity)
    (.state "portable KV append exceeds capacity"))
  Fallible.forEach rows.zipIdx appendRow
  .modify grow

/-- Shorten every layer. -/
def truncate (length : ℕ) : Fallible PortableKvCacheV1 (Stop PortableSessionError) PUnit := do
  let cache ← .get
  if h : length ≤ cache.length then .modify fun _ => cache.shorten length h
  else
    .ofExcept
      (Outcome.raise (.invalid "portable KV truncate length exceeds current length"))

/-- Reset the logical length without releasing storage. -/
def reset : PortableKvCacheV1 := cache.shorten 0 (Nat.zero_le _)

/-! ### Views -/

/-- The committed rows of a layer lie in the storage. -/
theorem rowOffset_le {layer : ℕ} (hlayer : layer < cache.layers) :
    cache.rowOffset layer 0 + cache.length * cache.rowWidth ≤ cache.storage.length := by
  rw [cache.length_storage, rowOffset, Nat.add_zero, ← Nat.add_mul]
  refine Nat.mul_le_mul_right _ ?_
  calc layer * cache.capacity + cache.length
      ≤ layer * cache.capacity + cache.capacity := Nat.add_le_add_left cache.length_le _
    _ = (layer + 1) * cache.capacity := (Nat.succ_mul ..).symm
    _ ≤ cache.layers * cache.capacity := Nat.mul_le_mul_right _ hlayer

theorem length_layerRows {layer : ℕ} (hlayer : layer < cache.layers) :
    (cache.layerRows layer).length = cache.length * cache.rowWidth :=
  length_region (cache.rowOffset_le hlayer)

theorem finite_layerRows (layer : ℕ) : ∀ value ∈ cache.layerRows layer, value.isFinite = true :=
  fun value h => cache.finite_storage value (List.mem_of_mem_drop (List.mem_of_mem_take h))

/-- The view of the committed rows of a layer. -/
theorem layerPrefix_eq {layer : ℕ} (hlayer : layer < cache.layers) :
    cache.layerPrefix layer = .ok (cache.layerRows layer) := by
  rw [layerPrefix, Outcome.require_of _ hlayer, Except.ok_bind, Outcome.slice,
    if_pos ⟨Nat.le_add_right _ _, cache.rowOffset_le hlayer⟩, Nat.add_sub_cancel_left]
  rfl

end PortableKvCacheV1

end NNIS
