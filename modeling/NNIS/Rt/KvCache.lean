import Mathlib.Tactic.Ring
import Mathlib.Tactic.Linarith
import NNIS.Memory.Region
import NNIS.Rt.Driver
import NNIS.Semantics.Checked

/-!
# The device-resident key/value cache

The cache of `nnis-rt/src/kv_cache.rs`: one key and one value allocation laid out as
`[layer][head][capacity][head_dim]`, and one logical length per layer. An append copies one region
per head and side behind the active rows and moves the length of its layer forward only after the
completion event has been recorded, so a failed append leaves the active rows as they were.
Addresses are element offsets into an allocation; the bound checks made on them are kept.

## Main definitions

* `KvCacheConfig`, `KvCache`, `KvRow`.
* `KvCache.truncate`, `KvCache.reset`, `KvCache.resetLayer`, `KvCache.appendLayerAsync`,
  `KvCache.appendLayer`.
* `KvCache.rows` — the active rows of a layer.

## Main results

* `KvCacheConfig.slot_le`, `KvCacheConfig.elementsPerSide_lt` — the slots of a configuration lie
  within one side, whose size fits.
* `KvCache.firstShorter_eq_none_iff` — no layer is shorter than the length of a truncation.
-/

set_option autoImplicit false

namespace NNIS

/-- Shape of an owned device-resident KV cache. -/
structure KvCacheConfig where
  layers : ℕ
  heads : ℕ
  headDim : ℕ
  capacity : ℕ
  layers_pos : 0 < layers
  heads_pos : 0 < heads
  headDim_pos : 0 < headDim
  capacity_pos : 0 < capacity
  elements_lt : layers * heads * capacity * headDim < wordLimit

namespace KvCacheConfig

/-- Validate a shape: no dimension is zero and the element count fits. -/
def new (layers heads headDim capacity : ℕ) : Except NnisError KvCacheConfig :=
  if h : 0 < layers ∧ 0 < heads ∧ 0 < headDim ∧ 0 < capacity then
    if hs : layers * heads * capacity * headDim < wordLimit then
      .ok ⟨layers, heads, headDim, capacity, h.1, h.2.1, h.2.2.1, h.2.2.2, hs⟩
    else .error (.invalidInput "KV cache shape overflows usize")
  else
    .error (.invalidInput (s!"KV cache dimensions must be non-zero; got layers={layers}, " ++
      s!"heads={heads}, head_dim={headDim}, capacity={capacity}"))

variable (config : KvCacheConfig)

/-- Total elements in either the K or V allocation. -/
def elementsPerSide : ℕ := config.layers * config.heads * config.capacity * config.headDim

/-- The number of row slots before a layer, head and position. -/
def slot (layer head position : ℕ) : ℕ :=
  (layer * config.heads + head) * config.capacity + position

/-- The first element of a layer and head. -/
def headBaseElements (layer head : ℕ) : Except NnisError ℕ := do
  if config.layers ≤ layer then
    throw (.invalidInput
      s!"KV cache layer {layer} is out of range for {config.layers} layers")
  if config.heads ≤ head then
    throw (.invalidInput s!"KV cache head {head} is out of range for {config.heads} heads")
  orInvalid "KV cache offset overflows usize" do
    let value ← checkedMul layer config.heads
    let value ← checkedAdd value head
    let value ← checkedMul value config.capacity
    checkedMul value config.headDim

/-- The first element of a layer, head and position. -/
def appendBaseElements (layer head position : ℕ) : Except NnisError ℕ := do
  let base ← config.headBaseElements layer head
  let offset ← orInvalid "KV cache position offset overflows usize"
    (checkedMul position config.headDim)
  orInvalid "KV cache append offset overflows usize" (checkedAdd base offset)

/-! ### Slots -/

variable {config}

/-- The row slots of different layers, heads and positions are apart. -/
theorem slot_lt_or_le {layer head layer' head' position first last : ℕ}
    (hhead : head < config.heads) (hhead' : head' < config.heads)
    (hposition : position < config.capacity) (hlast : last ≤ config.capacity)
    (h : ¬ (layer = layer' ∧ head = head' ∧ first ≤ position ∧ position < last)) :
    config.slot layer head position + 1 ≤ config.slot layer' head' first ∨
      config.slot layer' head' last ≤ config.slot layer head position := by
  have hblock {b b' : ℕ} (hb : b < b') : b * config.capacity + config.capacity ≤
      b' * config.capacity := by
    rw [← Nat.succ_mul]
    exact Nat.mul_le_mul_right _ hb
  unfold slot
  rcases Nat.lt_trichotomy (layer * config.heads + head) (layer' * config.heads + head') with
    hlt | heq | hgt
  · have := hblock hlt
    omega
  · have hl : layer = layer' := by
      rcases Nat.lt_trichotomy layer layer' with hl | hl | hl
      · have : (layer + 1) * config.heads ≤ layer' * config.heads := Nat.mul_le_mul_right _ hl
        rw [Nat.succ_mul] at this
        omega
      · exact hl
      · have : (layer' + 1) * config.heads ≤ layer * config.heads := Nat.mul_le_mul_right _ hl
        rw [Nat.succ_mul] at this
        omega
    subst hl
    rw [heq]
    omega
  · have := hblock hgt
    omega

/-- The slots of one head fit the allocation. -/
theorem slot_le {layer head position : ℕ} (hlayer : layer < config.layers)
    (hhead : head < config.heads) (hposition : position ≤ config.capacity) :
    config.slot layer head position * config.headDim ≤ config.elementsPerSide := by
  have h₁ : layer * config.heads + head + 1 ≤ config.layers * config.heads := by
    have : (layer + 1) * config.heads ≤ config.layers * config.heads :=
      Nat.mul_le_mul_right _ hlayer
    rw [Nat.succ_mul] at this
    omega
  refine Nat.mul_le_mul_right _ ?_
  calc config.slot layer head position
      ≤ (layer * config.heads + head + 1) * config.capacity := by
        rw [slot, Nat.succ_mul]
        omega
    _ ≤ config.layers * config.heads * config.capacity := Nat.mul_le_mul_right _ h₁

theorem elementsPerSide_lt : config.elementsPerSide < wordLimit := config.elements_lt

/-- The offset of a slot is computed without overflow. -/
theorem appendBaseElements_eq {layer head position : ℕ} (hlayer : layer < config.layers)
    (hhead : head < config.heads) (hposition : position ≤ config.capacity) :
    config.appendBaseElements layer head position =
      .ok (config.slot layer head position * config.headDim) := by
  have hd := config.headDim_pos
  have hc := config.capacity_pos
  have hlt := config.elementsPerSide_lt
  have hfit : config.slot layer head position * config.headDim < wordLimit :=
    (slot_le hlayer hhead hposition).trans_lt hlt
  have hslot : config.slot layer head position * config.headDim =
      (layer * config.heads + head) * config.capacity * config.headDim +
        position * config.headDim := by
    rw [slot, Nat.add_mul]
  have h₃ : (layer * config.heads + head) * config.capacity * config.headDim < wordLimit := by
    omega
  have h₂ : (layer * config.heads + head) * config.capacity < wordLimit :=
    (Nat.le_mul_of_pos_right _ hd).trans_lt h₃
  have h₁ : layer * config.heads + head < wordLimit := (Nat.le_mul_of_pos_right _ hc).trans_lt h₂
  simp only [appendBaseElements, headBaseElements, Nat.not_le.2 hlayer, Nat.not_le.2 hhead,
    ↓reduceIte, checkedMul_of_lt (a := layer) (b := config.heads) (by omega),
    checkedAdd_of_lt h₁, checkedMul_of_lt h₂, checkedMul_of_lt h₃, Option.bind_eq_bind,
    Option.bind_some, checkedMul_of_lt (a := position) (b := config.headDim) (by omega),
    orInvalid, hslot]
  show orInvalid _ (checkedAdd _ _) = _
  rw [checkedAdd_of_lt (hslot ▸ hfit), orInvalid]

end KvCacheConfig

/-- One row of a layer: its packed `[heads][head_dim]` key and value. -/
@[ext]
structure KvRow (V : Type) where
  key : List V
  value : List V
  deriving DecidableEq

/-- Fixed-capacity, device-resident KV storage bound to one stream. -/
structure KvCache (config : KvCacheConfig) (V : Type) where
  stream : Stream
  keys : List V
  values : List V
  lengths : List ℕ
  length_keys : keys.length = config.elementsPerSide
  length_values : values.length = config.elementsPerSide
  length_lengths : lengths.length = config.layers
  lengths_le : ∀ n ∈ lengths, n ≤ config.capacity

namespace KvCache

variable {config : KvCacheConfig} {V : Type}

/-- A cache without active rows on a stream, over allocations with some contents. -/
def ofAllocations (stream : Stream) (keys values : List V)
    (hkeys : keys.length = config.elementsPerSide)
    (hvalues : values.length = config.elementsPerSide) : KvCache config V where
  stream := stream
  keys := keys
  values := values
  lengths := List.replicate config.layers 0
  length_keys := hkeys
  length_values := hvalues
  length_lengths := List.length_replicate
  lengths_le n hn := by rw [List.eq_of_mem_replicate hn]; exact Nat.zero_le _

/-- Number of valid token positions currently stored for a layer. -/
def len (cache : KvCache config V) (layer : ℕ) : Except NnisError ℕ :=
  match cache.lengths[layer]? with
  | some length => .ok length
  | none => .error (.invalidInput s!"KV cache layer {layer} is out of range")

/-- The number of active rows of a layer, none outside the layers. -/
def rowCount (cache : KvCache config V) (layer : ℕ) : ℕ := cache.lengths[layer]?.getD 0

/-- The row of a layer at a position of its allocation. -/
def rowAt (cache : KvCache config V) (layer position : ℕ) : KvRow V where
  key := (List.range config.heads).flatMap fun head =>
    region cache.keys (config.slot layer head position * config.headDim) config.headDim
  value := (List.range config.heads).flatMap fun head =>
    region cache.values (config.slot layer head position * config.headDim) config.headDim

/-- The active rows of a layer, in order. -/
def rows (cache : KvCache config V) (layer : ℕ) : List (KvRow V) :=
  (List.range (cache.rowCount layer)).map (cache.rowAt layer)

/-! ### Updates -/

/-- The cache on another state of its stream. -/
def withStream (stream : Stream) (cache : KvCache config V) : KvCache config V :=
  { cache with stream := stream }

/-- Write a region of the key allocation. -/
def writeKeys (first : ℕ) (source : List V) (cache : KvCache config V) : KvCache config V :=
  { cache with
    keys := writeRegion cache.keys first source
    length_keys := by rw [length_writeRegion, cache.length_keys] }

/-- Write a region of the value allocation. -/
def writeValues (first : ℕ) (source : List V) (cache : KvCache config V) : KvCache config V :=
  { cache with
    values := writeRegion cache.values first source
    length_values := by rw [length_writeRegion, cache.length_values] }

/-- Set the length of one layer. -/
def setLength (layer n : ℕ) (h : n ≤ config.capacity) (cache : KvCache config V) :
    KvCache config V :=
  { cache with
    lengths := cache.lengths.set layer n
    length_lengths := by rw [List.length_set, cache.length_lengths]
    lengths_le m hm := by
      rcases List.mem_or_eq_of_mem_set hm with hm | rfl
      · exact cache.lengths_le m hm
      · exact h }

/-- Give every layer the same length. -/
def fillLengths (n : ℕ) (h : n ≤ config.capacity) (cache : KvCache config V) : KvCache config V :=
  { cache with
    lengths := List.replicate config.layers n
    length_lengths := List.length_replicate
    lengths_le m hm := by rw [List.eq_of_mem_replicate hm]; exact h }

/-! ### Operations -/

/-- Call the driver on the stream of the cache. -/
def call (site : CallSite) : Fallible (KvCache config V) NnisError PUnit :=
  (Stream.call site).zoom stream withStream

/-- Wait for the stream of the cache. -/
def synchronize (point : SyncPoint) : Fallible (KvCache config V) NnisError PUnit :=
  call (.synchronize point)

/-- A call whose refusal is returned after a wait for the work submitted before it, whatever that
wait reports. -/
def callOrDrain (site : CallSite) : Fallible (KvCache config V) NnisError PUnit := do
  match ← (call site).attempt with
  | .ok _ => pure ⟨⟩
  | .error error => do
    let _ ← (synchronize .drain).attempt
    Fallible.fail error

/-- Reset logical lengths without clearing device memory. -/
def reset (cache : KvCache config V) : KvCache config V := cache.fillLengths 0 (Nat.zero_le _)

/-- Reset one layer without clearing device memory. -/
def resetLayer (layer : ℕ) : Fallible (KvCache config V) NnisError PUnit := do
  let cache ← Fallible.get
  let _ ← Fallible.ofExcept (cache.len layer)
  Fallible.modify (setLength layer 0 (Nat.zero_le _))

/-- The first layer that holds fewer than `length` rows, with its number of rows. -/
def firstShorter (length : ℕ) : (layer : ℕ) → List ℕ → Option (ℕ × ℕ)
  | _, [] => none
  | layer, current :: rest =>
    if current < length then some (layer, current) else firstShorter length (layer + 1) rest

theorem firstShorter_eq_none_iff {length layer : ℕ} {lengths : List ℕ} :
    firstShorter length layer lengths = none ↔ ∀ n ∈ lengths, length ≤ n := by
  induction lengths generalizing layer with
  | nil => simp only [firstShorter, List.not_mem_nil, false_implies, implies_true]
  | cons current rest ih =>
    rw [firstShorter]
    split_ifs with h
    · simp only [List.mem_cons, forall_eq_or_imp, false_iff, not_and]
      intro hle
      omega
    · rw [ih, List.forall_mem_cons]
      exact ⟨fun hr => ⟨Nat.le_of_not_lt h, hr⟩, fun hr => hr.2⟩

/-- Shorten every layer to exactly `length` token positions without clearing device memory. Fails,
leaving every length unchanged, if any layer holds fewer. -/
def truncate (length : ℕ) : Fallible (KvCache config V) NnisError PUnit := do
  let cache ← Fallible.get
  match h : firstShorter length 0 cache.lengths with
  | some (layer, current) =>
    Fallible.fail (.invalidInput (s!"cannot truncate KV cache to {length} positions: " ++
      s!"layer {layer} holds {current}"))
  | none => Fallible.modify (fillLengths length (by
      have hpos : 0 < cache.lengths.length := cache.length_lengths ▸ config.layers_pos
      have hmem := List.getElem_mem hpos
      exact (firstShorter_eq_none_iff.1 h _ hmem).trans (cache.lengths_le _ hmem)))

/-- One head's part of an append: where it is read in the sources and written in the cache. -/
structure KvHeadCopy where
  head : ℕ
  source : ℕ
  destination : ℕ

/-- A bound check on a region of an allocation, with the texts of its refusals. -/
def checkedRegion (overflow : String) (outside : ℕ → String) (elements first size : ℕ) :
    Except NnisError ℕ := do
  let last ← orInvalid overflow (checkedAdd first size)
  if elements < last then throw (.invalidInput (outside last))
  return first

/-- The bound check on a region of an allocation. -/
def deviceRegion (elements first size : ℕ) : Except NnisError ℕ :=
  checkedRegion "device element range overflows usize"
    (fun last => s!"device region {first}..{last} exceeds buffer length {elements}")
    elements first size

/-- The transfer plan for one head. -/
def planHeadCopy (config : KvCacheConfig) (layer start elementsPerHead sourceElements head : ℕ) :
    Except NnisError KvHeadCopy := do
  let sourceOffset ← orInvalid "KV source offset overflows usize"
    (checkedMul head elementsPerHead)
  let destinationOffset ← config.appendBaseElements layer head start
  let source ← deviceRegion sourceElements sourceOffset elementsPerHead
  let destination ← deviceRegion config.elementsPerSide destinationOffset elementsPerHead
  return { head, source, destination }

/-- Submit the planned copies of an append, head by head, the key before the value. -/
def submitCopies (layer elementsPerHead : ℕ) (keys values : List V) (copies : List KvHeadCopy) :
    Fallible (KvCache config V) NnisError PUnit :=
  if elementsPerHead = 0 then pure ⟨⟩
  else do
    call (.prepareAppend layer)
    Fallible.forEach copies fun copy => do
      callOrDrain (.appendKey layer copy.head)
      Fallible.modify (writeKeys copy.destination (region keys copy.source elementsPerHead))
      callOrDrain (.appendValue layer copy.head)
      Fallible.modify (writeValues copy.destination (region values copy.source elementsPerHead))

/-- Append packed `[heads][tokens][head_dim]` K/V tensors without a host synchronization. The
length of the layer moves forward once the completion event has been recorded. -/
def appendLayerAsync (layer : ℕ) (keys values : List V) (tokens : ℕ) :
    Fallible (KvCache config V) NnisError PUnit := do
  let cache ← Fallible.get
  let start ← Fallible.ofExcept (cache.len layer)
  let last ← Fallible.ofExcept
    (orInvalid "KV cache position overflows usize" (checkedAdd start tokens))
  if hlast : last ≤ config.capacity then
    let expected ← Fallible.ofExcept (orInvalid "KV append shape overflows usize" do
      let value ← checkedMul config.heads tokens
      checkedMul value config.headDim)
    if keys.length ≠ expected ∨ values.length ≠ expected then
      Fallible.fail (.invalidInput (s!"KV append source lengths are {keys.length}/" ++
        s!"{values.length} elements; {config.heads} heads x {tokens} tokens x " ++
        s!"{config.headDim} dimensions requires {expected}"))
    else do
      let elementsPerHead ← Fallible.ofExcept
        (orInvalid "KV append head size overflows usize" (checkedMul tokens config.headDim))
      let copies ← Fallible.ofExcept ((List.range config.heads).mapM
        (planHeadCopy config layer start elementsPerHead expected))
      submitCopies layer elementsPerHead keys values copies
      callOrDrain (.recordAppend layer)
      Fallible.modify (setLength layer last hlast)
  else
    Fallible.fail (.invalidInput (s!"KV cache overflow at layer {layer}: {start} + {tokens} " ++
      s!"tokens exceeds capacity {config.capacity}"))

/-- Append packed `[heads][tokens][head_dim]` K/V tensors and wait. -/
def appendLayer (layer : ℕ) (keys values : List V) (tokens : ℕ) :
    Fallible (KvCache config V) NnisError PUnit := do
  appendLayerAsync layer keys values tokens
  call (.waitAppend layer)

end KvCache

end NNIS
