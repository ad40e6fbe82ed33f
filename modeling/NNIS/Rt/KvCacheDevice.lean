import NNIS.Rt.KvCacheRows
import NNIS.Semantics.Outcome

/-!
# The cache and its source buffers on the device

The append of `nnis-rt/src/kv_cache.rs` with the checks on its two source buffers: their context,
the aliasing of the cache and the byte addresses of the planned copies. Buffers carry what their
allocation guarantees, so that only the first two can reject a request, and an accepted append is
`KvCache.appendLayerAsync` on the contents of the buffers.

## Main definitions

* `DeviceBuffer`, `DeviceKvCache`, `DeviceKvCache.deviceRegionAddress`.
* `DeviceKvCache.appendLayerAsync`, `DeviceKvCache.appendLayer`, `DeviceKvCache.truncate`,
  `DeviceKvCache.resetLayer`, `DeviceKvCache.reset`, `DeviceKvCache.headRange`.

## Main results

* `DeviceKvCache.appendLayerAsync_of_admissible`, `DeviceKvCache.appendLayerAsync_of_not_admissible`
  — an append is `KvCache.appendLayerAsync`, or is rejected before any call.
-/

set_option autoImplicit false

namespace NNIS

/-- Owned allocation of elements of a byte size on the device. An empty allocation has address
zero, every other one lies inside the address space. -/
structure DeviceBuffer (size : ℕ) (V : Type) where
  context : ℕ
  devicePtr : ℕ
  contents : List V
  devicePtr_of_empty : contents.length * size = 0 → devicePtr = 0
  fits : devicePtr + contents.length * size < wordLimit

/-- A key/value cache in its context, with the addresses of its two allocations. -/
structure DeviceKvCache (config : KvCacheConfig) (size : ℕ) (V : Type) where
  context : ℕ
  cache : KvCache config V
  keysPtr : ℕ
  valuesPtr : ℕ
  keysPtr_of_empty : config.elementsPerSide * size = 0 → keysPtr = 0
  keys_fits : keysPtr + config.elementsPerSide * size < wordLimit
  values_fits : valuesPtr + config.elementsPerSide * size < wordLimit

namespace DeviceKvCache

variable {config : KvCacheConfig} {size : ℕ} {V : Type}

/-- The cache with other contents. -/
def withCache (cache : KvCache config V) (device : DeviceKvCache config size V) :
    DeviceKvCache config size V :=
  { device with cache := cache }

/-- A computation on the cache. -/
def onCache {α : Type} (m : Fallible (KvCache config V) NnisError α) :
    Fallible (DeviceKvCache config size V) NnisError α :=
  m.zoom cache withCache

/-- The address of a region of an allocation. -/
def deviceRegionAddress (size devicePtr elements first count : ℕ) : Except NnisError ℕ := do
  let last ← orInvalid "device element range overflows usize" (checkedAdd first count)
  if elements < last then
    throw (.invalidInput s!"device region {first}..{last} exceeds buffer length {elements}")
  let byteOffset ← orInvalid "device byte offset overflows usize" (checkedMul first size)
  orInvalid "device address overflows u64" (checkedAdd devicePtr byteOffset)

/-- The element at an address of an allocation. -/
def elementAt (size devicePtr address : ℕ) : ℕ := (address - devicePtr) / size

/-- The addresses of the two copies of a head. -/
structure KvHeadCopy where
  sourceKey : ℕ
  sourceValue : ℕ
  destinationKey : ℕ
  destinationValue : ℕ

/-- The transfer plan for one head. -/
def planHeadCopy (device : DeviceKvCache config size V) (keys values : DeviceBuffer size V)
    (layer start elementsPerHead head : ℕ) : Except NnisError KvHeadCopy := do
  let sourceOffset ← orInvalid "KV source offset overflows usize"
    (checkedMul head elementsPerHead)
  let destinationOffset ← config.appendBaseElements layer head start
  let sourceKey ← deviceRegionAddress size keys.devicePtr keys.contents.length sourceOffset
    elementsPerHead
  let sourceValue ← deviceRegionAddress size values.devicePtr values.contents.length sourceOffset
    elementsPerHead
  let destinationKey ← deviceRegionAddress size device.keysPtr config.elementsPerSide
    destinationOffset elementsPerHead
  let destinationValue ← deviceRegionAddress size device.valuesPtr config.elementsPerSide
    destinationOffset elementsPerHead
  return { sourceKey, sourceValue, destinationKey, destinationValue }

/-- Submit the planned copies of an append, head by head, the key before the value. A copy moves
the elements between the two addresses. -/
def submitCopies (device : DeviceKvCache config size V) (keys values : DeviceBuffer size V)
    (layer elementsPerHead bytesPerHead : ℕ) (copies : List KvHeadCopy) :
    Fallible (KvCache config V) NnisError PUnit :=
  if bytesPerHead = 0 then pure ⟨⟩
  else do
    KvCache.call (.prepareAppend layer)
    Fallible.forEach copies.zipIdx fun (copy, head) => do
      KvCache.callOrDrain (.appendKey layer head)
      Fallible.modify (KvCache.writeKeys (elementAt size device.keysPtr copy.destinationKey)
        (region keys.contents (elementAt size keys.devicePtr copy.sourceKey) elementsPerHead))
      KvCache.callOrDrain (.appendValue layer head)
      Fallible.modify (KvCache.writeValues (elementAt size device.valuesPtr copy.destinationValue)
        (region values.contents (elementAt size values.devicePtr copy.sourceValue)
          elementsPerHead))

/-- Append packed `[heads][tokens][head_dim]` K/V tensors without a host synchronization. -/
def appendLayerAsync (layer : ℕ) (keys values : DeviceBuffer size V) (tokens : ℕ) :
    Fallible (DeviceKvCache config size V) NnisError PUnit := do
  let device ← Fallible.get
  let start ← Fallible.ofExcept (device.cache.len layer)
  let last ← Fallible.ofExcept
    (orInvalid "KV cache position overflows usize" (checkedAdd start tokens))
  if hlast : last ≤ config.capacity then
    let expected ← Fallible.ofExcept (orInvalid "KV append shape overflows usize" do
      let value ← checkedMul config.heads tokens
      checkedMul value config.headDim)
    if keys.contents.length ≠ expected ∨ values.contents.length ≠ expected then
      Fallible.fail (.invalidInput (s!"KV append source lengths are {keys.contents.length}/" ++
        s!"{values.contents.length} elements; {config.heads} heads x {tokens} tokens x " ++
        s!"{config.headDim} dimensions requires {expected}"))
    else if device.context ≠ keys.context ∨ device.context ≠ values.context then
      Fallible.fail (.invalidInput
        "KV cache and append sources must belong to one CUDA context")
    else if [keys, values].any fun source =>
        source.devicePtr = device.keysPtr || source.devicePtr = device.valuesPtr then
      Fallible.fail (.invalidInput "KV append sources must not alias the cache allocations")
    else do
      let elementsPerHead ← Fallible.ofExcept
        (orInvalid "KV append head size overflows usize" (checkedMul tokens config.headDim))
      let bytesPerHead ← Fallible.ofExcept
        (orInvalid "KV append byte size overflows usize" (checkedMul elementsPerHead size))
      let copies ← Fallible.ofExcept ((List.range config.heads).mapM
        (device.planHeadCopy keys values layer start elementsPerHead))
      onCache (device.submitCopies keys values layer elementsPerHead bytesPerHead copies)
      onCache (KvCache.callOrDrain (.recordAppend layer))
      onCache (Fallible.modify (KvCache.setLength layer last hlast))
  else
    Fallible.fail (.invalidInput (s!"KV cache overflow at layer {layer}: {start} + {tokens} " ++
      s!"tokens exceeds capacity {config.capacity}"))

/-- Append packed `[heads][tokens][head_dim]` K/V tensors and wait. -/
def appendLayer (layer : ℕ) (keys values : DeviceBuffer size V) (tokens : ℕ) :
    Fallible (DeviceKvCache config size V) NnisError PUnit := do
  appendLayerAsync layer keys values tokens
  onCache (KvCache.call (.waitAppend layer))

/-- Shorten every layer to exactly `length` token positions. -/
def truncate (length : ℕ) : Fallible (DeviceKvCache config size V) NnisError PUnit :=
  onCache (KvCache.truncate length)

/-- Reset one layer. -/
def resetLayer (layer : ℕ) : Fallible (DeviceKvCache config size V) NnisError PUnit :=
  onCache (KvCache.resetLayer layer)

/-- Reset logical lengths. -/
def reset : Fallible (DeviceKvCache config size V) NnisError PUnit :=
  onCache (Fallible.modify KvCache.reset)

/-- Active contiguous element range for one layer and head in the flat cache. -/
def headRange (device : DeviceKvCache config size V) (layer head : ℕ) :
    Except NnisError (ℕ × ℕ) := do
  let length ← device.cache.len layer
  if config.heads ≤ head then
    throw (.invalidInput s!"KV cache head {head} is out of range for {config.heads} heads")
  let start ← config.headBaseElements layer head
  let active ← orInvalid "KV cache active range overflows usize"
    (checkedMul length config.headDim)
  let stop ← orInvalid "KV cache active range overflows usize" (checkedAdd start active)
  return (start, stop)

/-! ### Planned copies -/

theorem elementAt_eq (hsize : 0 < size) (devicePtr first : ℕ) :
    elementAt size devicePtr (devicePtr + first * size) = first := by
  rw [elementAt, Nat.add_sub_cancel_left, Nat.mul_div_cancel _ hsize]

/-- A region of an allocation is addressed without overflow. -/
theorem deviceRegionAddress_eq {devicePtr elements first count : ℕ}
    (hfit : first + count ≤ elements) (helements : elements < wordLimit)
    (hfits : devicePtr + elements * size < wordLimit) :
    deviceRegionAddress size devicePtr elements first count =
      .ok (devicePtr + first * size) := by
  have hbytes : first * size ≤ elements * size := Nat.mul_le_mul_right _ (by omega)
  simp only [deviceRegionAddress, checkedAdd_of_lt (a := first) (b := count) (by omega),
    checkedMul_of_lt (a := first) (b := size) (by omega), orInvalid, Except.ok_bind,
    Nat.not_lt.2 hfit, ↓reduceIte, checkedAdd_of_lt (a := devicePtr) (b := first * size)
      (by omega)]

/-- The checks of an append that are not about the shape of the cache alone. -/
structure Admissible (device : DeviceKvCache config size V) (layer : ℕ)
    (keys values : DeviceBuffer size V) (tokens : ℕ) : Prop where
  layer_lt : layer < config.layers
  fits : device.cache.rowCount layer + tokens ≤ config.capacity
  length_keys : keys.contents.length = config.heads * tokens * config.headDim
  length_values : values.contents.length = config.heads * tokens * config.headDim
  context_keys : device.context = keys.context
  context_values : device.context = values.context
  apart : ∀ source ∈ [keys, values],
    source.devicePtr ≠ device.keysPtr ∧ source.devicePtr ≠ device.valuesPtr

/-- The address of an empty allocation is the address of an empty cache. -/
theorem Admissible.size_pos {device : DeviceKvCache config size V} {layer tokens : ℕ}
    {keys values : DeviceBuffer size V} (h : device.Admissible layer keys values tokens) :
    0 < size := by
  rcases Nat.eq_zero_or_pos size with hzero | hpos
  · refine absurd ?_ (h.apart keys List.mem_cons_self).1
    subst hzero
    rw [keys.devicePtr_of_empty (Nat.mul_zero _), device.keysPtr_of_empty (Nat.mul_zero _)]
  · exact hpos

/-- The addresses planned for a head. -/
def plannedCopy (device : DeviceKvCache config size V) (keys values : DeviceBuffer size V)
    (layer start tokens head : ℕ) : KvHeadCopy where
  sourceKey := keys.devicePtr + head * (tokens * config.headDim) * size
  sourceValue := values.devicePtr + head * (tokens * config.headDim) * size
  destinationKey := device.keysPtr + config.slot layer head start * config.headDim * size
  destinationValue := device.valuesPtr + config.slot layer head start * config.headDim * size

/-- Every planned copy is inside its allocations. -/
theorem planHeadCopy_eq {device : DeviceKvCache config size V} {layer tokens head : ℕ}
    {keys values : DeviceBuffer size V} (h : device.Admissible layer keys values tokens)
    (hhead : head < config.heads) :
    device.planHeadCopy keys values layer (device.cache.rowCount layer) (tokens * config.headDim)
        head =
      .ok (device.plannedCopy keys values layer (device.cache.rowCount layer) tokens head) := by
  have hlt := config.elementsPerSide_lt
  have hfits := h.fits
  have hshape : config.heads * tokens * config.headDim ≤ config.elementsPerSide :=
    KvCache.appendElements_le (by omega)
  have hsource : head * (tokens * config.headDim) + tokens * config.headDim ≤
      config.heads * tokens * config.headDim := by
    rw [Nat.mul_assoc, ← Nat.succ_mul]
    exact Nat.mul_le_mul_right _ hhead
  have hdestination : config.slot layer head (device.cache.rowCount layer) * config.headDim +
      tokens * config.headDim ≤ config.elementsPerSide := by
    rw [← Nat.add_mul, KvCacheConfig.slot, Nat.add_assoc]
    exact KvCacheConfig.slot_le h.layer_lt hhead hfits
  rw [planHeadCopy, checkedMul_of_lt (by omega),
    KvCacheConfig.appendBaseElements_eq h.layer_lt hhead (by omega)]
  simp only [orInvalid, Except.ok_bind]
  rw [deviceRegionAddress_eq (h.length_keys ▸ hsource) (h.length_keys ▸ by omega) keys.fits,
    deviceRegionAddress_eq (h.length_values ▸ hsource) (h.length_values ▸ by omega) values.fits,
    deviceRegionAddress_eq hdestination hlt device.keys_fits,
    deviceRegionAddress_eq hdestination hlt device.values_fits]
  rfl

private theorem forEach_map {σ ε : Type} {ι κ : Type} (f : ι → κ)
    (body : κ → Fallible σ ε PUnit) (l : List ι) :
    Fallible.forEach (l.map f) body = Fallible.forEach l fun x => body (f x) := by
  simp only [Fallible.forEach]
  induction l with
  | nil => rfl
  | cons x l ih => simp only [List.map_cons, Fallible.foldEach, ih]

private theorem zipIdx_map_range {α : Type} (f : ℕ → α) (n : ℕ) :
    ((List.range n).map f).zipIdx = (List.range n).map fun i => (f i, i) := by
  refine List.ext_getElem (by simp only [List.length_zipIdx, List.length_map]) fun i hi hi' => ?_
  simp only [List.getElem_zipIdx, List.getElem_map, List.getElem_range, Nat.zero_add]

/-- The copies between the planned addresses move the planned elements. -/
theorem submitCopies_eq (hsize : 0 < size) (device : DeviceKvCache config size V)
    (keys values : DeviceBuffer size V) (layer start tokens : ℕ) :
    device.submitCopies keys values layer (tokens * config.headDim)
        (tokens * config.headDim * size)
        ((List.range config.heads).map (device.plannedCopy keys values layer start tokens)) =
      KvCache.submitCopies layer (tokens * config.headDim) keys.contents values.contents
        (KvCache.plannedCopies config layer start tokens) := by
  have hzero : tokens * config.headDim * size = 0 ↔ tokens * config.headDim = 0 :=
    ⟨fun h => (Nat.mul_eq_zero.1 h).resolve_right hsize.ne', fun h => by rw [h, Nat.zero_mul]⟩
  rw [submitCopies, KvCache.submitCopies, zipIdx_map_range, forEach_map, KvCache.plannedCopies,
    forEach_map]
  simp only [hzero, plannedCopy, elementAt_eq hsize]

private theorem run_onCache_bind {α β : Type} (m : Fallible (KvCache config V) NnisError α)
    (f : α → Fallible (KvCache config V) NnisError β) :
    (onCache (m >>= f) : Fallible (DeviceKvCache config size V) NnisError β) =
      onCache m >>= fun a => onCache (f a) := by
  refine Fallible.ext fun device => ?_
  simp only [onCache, Fallible.run_zoom, Fallible.run_bind]
  rcases m.run device.cache with ⟨_ | _, _⟩ <;> rfl

/-- An admissible append is an append of the contents of its buffers. -/
theorem appendLayerAsync_of_admissible {device : DeviceKvCache config size V} {layer tokens : ℕ}
    {keys values : DeviceBuffer size V} (h : device.Admissible layer keys values tokens) :
    (appendLayerAsync layer keys values tokens).run device =
      (onCache (KvCache.appendLayerAsync layer keys.contents values.contents tokens)).run
        device := by
  have hfits := h.fits
  have hcapacity := KvCache.capacity_lt config
  have htokens : tokens ≤ config.capacity := by omega
  obtain ⟨-, hheads, hshape, hhead⟩ := KvCache.append_sizes_lt config htokens
  have hbytes : tokens * config.headDim * size < wordLimit := by
    have hle : tokens * config.headDim * size ≤ keys.contents.length * size := by
      rw [h.length_keys, Nat.mul_assoc config.heads]
      exact Nat.mul_le_mul_right _ (Nat.le_mul_of_pos_left _ config.heads_pos)
    have hkeys := keys.fits
    omega
  have hplan : (List.range config.heads).mapM (device.planHeadCopy keys values layer
      (device.cache.rowCount layer) (tokens * config.headDim)) =
        .ok ((List.range config.heads).map (device.plannedCopy keys values layer
          (device.cache.rowCount layer) tokens)) :=
    mapM_eq_ok fun head hh => planHeadCopy_eq h (List.mem_range.1 hh)
  have hadd : checkedAdd (device.cache.rowCount layer) tokens =
      some (device.cache.rowCount layer + tokens) := checkedAdd_of_lt (by omega)
  have hcontext : ¬ (device.context ≠ keys.context ∨ device.context ≠ values.context) :=
    fun hne => hne.elim (absurd h.context_keys) (absurd h.context_values)
  have hapart : ([keys, values].any fun source =>
      source.devicePtr = device.keysPtr || source.devicePtr = device.valuesPtr) = false := by
    rw [List.any_eq_false]
    intro source hsource
    obtain ⟨hk, hv⟩ := h.apart source hsource
    simp only [hk, hv, decide_false, Bool.or_self, Bool.false_eq_true, not_false_eq_true]
  have hcache : (onCache (KvCache.appendLayerAsync layer keys.contents values.contents
      tokens)).run device = (onCache (KvCache.submitCopies layer (tokens * config.headDim)
        keys.contents values.contents (KvCache.plannedCopies config layer
          (device.cache.rowCount layer) tokens) >>= fun _ =>
        KvCache.callOrDrain (.recordAppend layer) >>= fun _ =>
          Fallible.modify (KvCache.setLength layer (device.cache.rowCount layer + tokens)
            hfits))).run device := by
    simp only [onCache, Fallible.run_zoom, KvCache.run_appendLayerAsync device.cache h.layer_lt
      hfits h.length_keys h.length_values]
  rw [hcache, run_onCache_bind]
  simp only [run_onCache_bind]
  rw [← submitCopies_eq h.size_pos device keys values]
  simp only [appendLayerAsync, Fallible.run_bind, Fallible.run_get, Fallible.run_ofExcept,
    device.cache.len_eq h.layer_lt, hadd, orInvalid, hfits, ↓reduceDIte, checkedMul_of_lt hheads,
    checkedMul_of_lt hshape, Option.bind_eq_bind, Option.bind_some, h.length_keys,
    h.length_values, ne_eq, not_true_eq_false, or_self, ↓reduceIte, hcontext, hapart,
    Bool.false_eq_true, checkedMul_of_lt hhead, checkedMul_of_lt hbytes, hplan]

/-- An append that is not admissible is rejected before any call. -/
theorem appendLayerAsync_of_not_admissible {device : DeviceKvCache config size V}
    {layer tokens : ℕ} {keys values : DeviceBuffer size V}
    (h : ¬ device.Admissible layer keys values tokens) :
    ∃ what, (appendLayerAsync layer keys values tokens).run device =
      (.error (.invalidInput what), device) := by
  simp only [appendLayerAsync, Fallible.run_bind, Fallible.run_get, Fallible.run_ofExcept]
  by_cases hlayer : layer < config.layers
  swap
  · have hnone : device.cache.lengths[layer]? = none :=
      List.getElem?_eq_none (device.cache.length_lengths ▸ Nat.le_of_not_lt hlayer)
    exact ⟨_, by simp only [KvCache.len, hnone]; rfl⟩
  simp only [device.cache.len_eq hlayer]
  cases hadd : checkedAdd (device.cache.rowCount layer) tokens with
  | none => exact ⟨_, rfl⟩
  | some last =>
    obtain ⟨rfl, -⟩ := checkedAdd_eq_some_iff.1 hadd
    by_cases hfits : device.cache.rowCount layer + tokens ≤ config.capacity
    swap
    · exact ⟨_, by simp only [orInvalid, dif_neg hfits]; rfl⟩
    have htokens : tokens ≤ config.capacity := by omega
    obtain ⟨-, hheads, hshape, -⟩ := KvCache.append_sizes_lt config htokens
    simp only [orInvalid, dif_pos hfits, Fallible.run_bind, Fallible.run_ofExcept,
      checkedMul_of_lt hheads, checkedMul_of_lt hshape, Option.bind_eq_bind, Option.bind_some]
    split_ifs with hlength hcontext hapart
    · exact ⟨_, rfl⟩
    · exact ⟨_, rfl⟩
    · exact ⟨_, rfl⟩
    · refine absurd ⟨hlayer, hfits, ?_, ?_, ?_, ?_, ?_⟩ h
      · exact Decidable.not_not.1 fun hne => hlength (.inl hne)
      · exact Decidable.not_not.1 fun hne => hlength (.inr hne)
      · exact Decidable.not_not.1 fun hne => hcontext (.inl hne)
      · exact Decidable.not_not.1 fun hne => hcontext (.inr hne)
      · intro source hsource
        rw [Bool.not_eq_true, List.any_eq_false] at hapart
        have hne := hapart source hsource
        rw [Bool.or_eq_true, decide_eq_true_iff, decide_eq_true_iff, not_or] at hne
        exact hne

end DeviceKvCache

end NNIS
