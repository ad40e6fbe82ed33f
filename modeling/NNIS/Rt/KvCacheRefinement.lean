import NNIS.Rt.KvCacheLogs

/-!
# The cache refines its lists

What an accepted append writes: the new rows of every head of its layer, and no other element of
the allocations. All of its copies lie inside the allocations they are read from and written to,
and the regions of different layers and heads are apart. With the runs of the operations this makes
the cache a refinement of one list of rows per layer and head.

## Main definitions

* `Written`, `DeviceKvCache.AppendedRows` — what an append does to an allocation and a cache.
* `DeviceKvCache.KvHeadCopy.Within` — a copy stays inside its allocations.

## Main results

* `Copied.written` — the copies of all heads.
* `DeviceKvCache.appendLayer_written`, `DeviceKvCache.appendLayerAsync_written`.
* `DeviceKvCache.refines_headLogs`.
-/

set_option autoImplicit false

namespace NNIS

variable {config : KvCacheConfig} {size : ℕ} {V : Type}

/-! ### Elements of the allocation -/

/-- Every element of the allocation belongs to a row of a layer and head. -/
theorem KvCacheConfig.exists_slot {i : ℕ} (h : i < config.elementsPerSide) :
    ∃ layer head position, layer < config.layers ∧ head < config.heads ∧
      position < config.capacity ∧ i / config.headDim = config.slot layer head position := by
  have hrow : i / config.headDim < config.layers * config.heads * config.capacity :=
    Nat.div_lt_of_lt_mul (by rw [Nat.mul_comm]; exact h)
  have hblock : i / config.headDim / config.capacity < config.layers * config.heads :=
    Nat.div_lt_of_lt_mul (by rw [Nat.mul_comm]; exact hrow)
  refine ⟨i / config.headDim / config.capacity / config.heads,
    i / config.headDim / config.capacity % config.heads, i / config.headDim % config.capacity,
    Nat.div_lt_of_lt_mul (by rw [Nat.mul_comm]; exact hblock), Nat.mod_lt _ config.heads_pos,
    Nat.mod_lt _ config.capacity_pos, ?_⟩
  rw [KvCacheConfig.slot, Nat.div_add_mod', Nat.div_add_mod']

/-- What an append of `tokens` rows from position `start` on does to an allocation: its rows are
in the regions of the heads of its layer, every other element is as before. -/
structure Written (config : KvCacheConfig) (layer start tokens : ℕ) (source before after : List V) :
    Prop where
  written : ∀ head < config.heads,
    region after (config.slot layer head start * config.headDim) (tokens * config.headDim) =
      region source (head * (tokens * config.headDim)) (tokens * config.headDim)
  frame : ∀ i : ℕ, (∀ head < config.heads,
      ¬ (config.slot layer head start * config.headDim ≤ i ∧
        i < config.slot layer head (start + tokens) * config.headDim)) →
    after[i]? = before[i]?

/-- The copies of all heads write the rows of an append and nothing else. -/
theorem Copied.written {layer start tokens : ℕ} {source before after : List V}
    (hbefore : before.length = config.elementsPerSide) (hfits : start + tokens ≤ config.capacity)
    (h : Copied config layer start tokens source before config.heads after) :
    Written config layer start tokens source before after where
  written head hhead := by
    rw [← flatMap_region, ← flatMap_region]
    refine List.flatMap_congr fun i hi => ?_
    have hi := List.mem_range.1 hi
    have hread := h.read layer head (start + i) hhead (by omega)
    rw [if_pos ⟨rfl, hhead, by omega, by omega⟩, Nat.add_sub_cancel_left] at hread
    rw [← Nat.add_mul, KvCacheConfig.slot, Nat.add_assoc, ← KvCacheConfig.slot, hread,
      ← Nat.mul_assoc, ← Nat.add_mul]
  frame i hi := by
    rcases Nat.lt_or_ge i config.elementsPerSide with hlt | hge
    swap
    · rw [List.getElem?_eq_none (h.length_eq ▸ hge), List.getElem?_eq_none (hbefore ▸ hge)]
    obtain ⟨l, head, position, -, hhead, hposition, hslot⟩ := KvCacheConfig.exists_slot hlt
    have hi' : i = config.slot l head position * config.headDim + i % config.headDim := by
      rw [← hslot, Nat.div_add_mod']
    have hmod := Nat.mod_lt i config.headDim_pos
    have hread := h.read l head position hhead hposition
    rw [if_neg] at hread
    · have helement := congrArg (fun row => row[i % config.headDim]?) hread
      simp only [getElem?_region _ hmod, ← hi'] at helement
      exact helement
    · rintro ⟨rfl, -, hlow, hhigh⟩
      refine hi head hhead ?_
      have hfirst : config.slot l head start * config.headDim ≤
          config.slot l head position * config.headDim :=
        Nat.mul_le_mul_right _ (by simp only [KvCacheConfig.slot]; omega)
      have hlast : (config.slot l head position + 1) * config.headDim ≤
          config.slot l head (start + tokens) * config.headDim :=
        Nat.mul_le_mul_right _ (by simp only [KvCacheConfig.slot]; omega)
      rw [Nat.succ_mul] at hlast
      omega

namespace DeviceKvCache

/-! ### What an append writes -/

/-- A copy of a number of bytes stays inside the allocations of its sources and of the cache. -/
structure KvHeadCopy.Within (device : DeviceKvCache config size V)
    (keys values : DeviceBuffer size V) (bytes : ℕ) (copy : KvHeadCopy) : Prop where
  sourceKey_ge : keys.devicePtr ≤ copy.sourceKey
  sourceKey_le : copy.sourceKey + bytes ≤ keys.devicePtr + keys.contents.length * size
  sourceValue_ge : values.devicePtr ≤ copy.sourceValue
  sourceValue_le : copy.sourceValue + bytes ≤ values.devicePtr + values.contents.length * size
  destinationKey_ge : device.keysPtr ≤ copy.destinationKey
  destinationKey_le :
    copy.destinationKey + bytes ≤ device.keysPtr + config.elementsPerSide * size
  destinationValue_ge : device.valuesPtr ≤ copy.destinationValue
  destinationValue_le :
    copy.destinationValue + bytes ≤ device.valuesPtr + config.elementsPerSide * size

/-- The planned copies of an admissible append stay inside their allocations. -/
theorem plannedCopy_within {device : DeviceKvCache config size V} {layer tokens head : ℕ}
    {keys values : DeviceBuffer size V} (h : device.Admissible layer keys values tokens)
    (hhead : head < config.heads) :
    (device.plannedCopy keys values layer (device.cache.rowCount layer) tokens head).Within device
      keys values (tokens * config.headDim * size) := by
  have hsource : head * (tokens * config.headDim) * size + tokens * config.headDim * size ≤
      config.heads * tokens * config.headDim * size := by
    rw [← Nat.add_mul, ← Nat.succ_mul, Nat.mul_assoc config.heads]
    exact Nat.mul_le_mul_right _ (Nat.mul_le_mul_right _ hhead)
  have hdestination : config.slot layer head (device.cache.rowCount layer) * config.headDim * size +
      tokens * config.headDim * size ≤ config.elementsPerSide * size := by
    rw [← Nat.add_mul, ← Nat.add_mul, KvCacheConfig.slot, Nat.add_assoc]
    exact Nat.mul_le_mul_right _ (KvCacheConfig.slot_le h.layer_lt hhead h.fits)
  have hkeys := h.length_keys
  have hvalues := h.length_values
  refine ⟨Nat.le_add_right _ _, ?_, Nat.le_add_right _ _, ?_, Nat.le_add_right _ _, ?_,
    Nat.le_add_right _ _, ?_⟩
  · simp only [hkeys, plannedCopy]
    omega
  · simp only [hvalues, plannedCopy]
    omega
  · simp only [plannedCopy]
    omega
  · simp only [plannedCopy]
    omega

/-- What an accepted append did: it was admissible, its planned copies are inside their
allocations, and the rows of its layer, and nothing else, have been written. -/
structure AppendedRows (layer : ℕ) (keys values : DeviceBuffer size V) (tokens : ℕ)
    (device device' : DeviceKvCache config size V) : Prop where
  admissible : device.Admissible layer keys values tokens
  within : ∃ copies, (List.range config.heads).mapM (device.planHeadCopy keys values layer
      (device.cache.rowCount layer) (tokens * config.headDim)) = .ok copies ∧
    ∀ copy ∈ copies, copy.Within device keys values (tokens * config.headDim * size)
  keys_written : Written config layer (device.cache.rowCount layer) tokens keys.contents
    device.cache.keys device'.cache.keys
  values_written : Written config layer (device.cache.rowCount layer) tokens values.contents
    device.cache.values device'.cache.values
  len_eq : ∀ l < config.layers, device'.cache.rowCount l =
    if l = layer then device.cache.rowCount layer + tokens else device.cache.rowCount l

theorem appendLayerAsync_written {device device' : DeviceKvCache config size V} {layer tokens : ℕ}
    {keys values : DeviceBuffer size V}
    (hrun : (appendLayerAsync layer keys values tokens).run device = (.ok ⟨⟩, device')) :
    AppendedRows layer keys values tokens device device' := by
  have h : device.Admissible layer keys values tokens := by
    by_contra hno
    obtain ⟨what, herror⟩ := appendLayerAsync_of_not_admissible hno
    rw [herror] at hrun
    exact absurd (Prod.ext_iff.1 hrun).1 nofun
  rw [appendLayerAsync_of_admissible h] at hrun
  have hspec := device.cache.appendLayerAsync_appending h.layer_lt h.fits h.length_keys
    h.length_values
  obtain ⟨c, ⟨c₁, hc₁, rfl⟩, rfl⟩ := (onCache_spec device hspec).ok rfl hrun
  refine ⟨h, ⟨_, mapM_eq_ok fun head hh => planHeadCopy_eq h (List.mem_range.1 hh),
    fun copy hcopy => ?_⟩, hc₁.keys_copied.written device.cache.length_keys h.fits,
    hc₁.values_copied.written device.cache.length_values h.fits, fun l _ => ?_⟩
  · obtain ⟨head, hhead, rfl⟩ := List.mem_map.1 hcopy
    exact plannedCopy_within h (List.mem_range.1 hhead)
  · show (c₁.setLength layer _ h.fits).rowCount l = _
    rw [c₁.rowCount_setLength h.layer_lt]
    refine if_congr Iff.rfl rfl ?_
    rw [KvCache.rowCount, hc₁.lengths_eq, ← KvCache.rowCount]

theorem appendLayer_written {device device' : DeviceKvCache config size V} {layer tokens : ℕ}
    {keys values : DeviceBuffer size V}
    (hrun : (appendLayer layer keys values tokens).run device = (.ok ⟨⟩, device')) :
    AppendedRows layer keys values tokens device device' := by
  have hany : ∀ ok, anyCall (.waitAppend layer, ok) := fun _ => trivial
  rw [appendLayer, Fallible.run_bind] at hrun
  rcases hasync : (appendLayerAsync layer keys values tokens).run device with ⟨_ | _, d⟩
  · rw [hasync] at hrun
    exact absurd (Prod.ext_iff.1 hrun).1 nofun
  · rw [hasync] at hrun
    have h := appendLayerAsync_written hasync
    obtain ⟨c, ⟨s, rfl, -⟩, rfl⟩ :=
      (onCache_spec d (d.cache.call_spec (.waitAppend layer) hany)).ok rfl hrun
    exact ⟨h.admissible, h.within, h.keys_written, h.values_written, h.len_eq⟩

/-- An offset is computed for the layers and heads of the cache alone. -/
private theorem eq_of_headBaseElements {layer head base : ℕ}
    (h : config.headBaseElements layer head = .ok base) :
    layer < config.layers ∧ head < config.heads ∧
      base = config.slot layer head 0 * config.headDim := by
  have hlayer : layer < config.layers := by
    by_contra hno
    rw [KvCacheConfig.headBaseElements, if_pos (Nat.le_of_not_lt hno)] at h
    cases h
  have hhead : head < config.heads := by
    by_contra hno
    rw [KvCacheConfig.headBaseElements, if_neg (Nat.not_le.2 hlayer),
      if_pos (Nat.le_of_not_lt hno)] at h
    cases h
  rw [headBaseElements_eq hlayer hhead] at h
  exact ⟨hlayer, hhead, (Except.ok.inj h).symm⟩

/-- The regions of different layers and heads, with all of their capacity, are apart. -/
theorem headBaseElements_apart {layer head layer' head' base base' : ℕ}
    (h : config.headBaseElements layer head = .ok base)
    (h' : config.headBaseElements layer' head' = .ok base')
    (hne : (layer, head) ≠ (layer', head')) :
    base + config.capacity * config.headDim ≤ base' ∨
      base' + config.capacity * config.headDim ≤ base := by
  obtain ⟨-, hhead, rfl⟩ := eq_of_headBaseElements h
  obtain ⟨-, hhead', rfl⟩ := eq_of_headBaseElements h'
  have hapart : config.slot layer head 0 + 1 ≤ config.slot layer' head' 0 ∨
      config.slot layer' head' config.capacity ≤ config.slot layer head 0 :=
    KvCacheConfig.slot_lt_or_le hhead hhead' config.capacity_pos le_rfl
      fun hsame => hne (Prod.ext hsame.1 hsame.2.1)
  rw [slot_add, slot_add, Nat.zero_add]
  refine hapart.imp (fun hlt => Nat.mul_le_mul_right _ ?_) fun hle => Nat.mul_le_mul_right _ hle
  simp only [KvCacheConfig.slot, Nat.add_zero] at hlt ⊢
  rw [← Nat.succ_mul]
  exact Nat.mul_le_mul_right _ (Nat.lt_of_mul_lt_mul_right hlt)

/-- The cache is a refinement of one list of rows per layer and head. After a run from an empty
cache in which no call has been refused, the region of every layer and head holds the rows appended
and not cut off. A rejected operation changes nothing, an accepted append writes its rows and
nothing else, and the regions of different layers and heads are apart. -/
theorem refines_headLogs (ops : List (KvCacheOp size V)) (device : DeviceKvCache config size V)
    (hfresh : device.cache.lengths = List.replicate config.layers 0)
    (hcalls : ¬ (KvCacheOp.run ops device).2.cache.stream.Refused fun _ => true) :
    (∀ layer < config.layers, ∀ head < config.heads, ∃ start stop,
      (KvCacheOp.run ops device).2.HeadRegion
        (logsAfter config (fun _ _ => []) (KvCacheOp.run ops device).1 layer head) layer head
          start stop) ∧
    (∀ (op : KvCacheOp size V) (before after : DeviceKvCache config size V) (e : NnisError),
      op.step.run before = (.error e, after) →
        (¬ after.cache.stream.Refused fun _ => true) → after = before) ∧
    (∀ (before after : DeviceKvCache config size V) (layer : ℕ) (keys values : DeviceBuffer size V)
        (tokens : ℕ),
      (appendLayerAsync layer keys values tokens).run before = (.ok ⟨⟩, after) ∨
          (appendLayer layer keys values tokens).run before = (.ok ⟨⟩, after) →
        AppendedRows layer keys values tokens before after) ∧
    ∀ layer head layer' head' base base', config.headBaseElements layer head = .ok base →
      config.headBaseElements layer' head' = .ok base' → (layer, head) ≠ (layer', head') →
        base + config.capacity * config.headDim ≤ base' ∨
          base' + config.capacity * config.headDim ≤ base := by
  have hempty : ∀ layer < config.layers, ∀ head < config.heads,
      device.headRows layer head = [] := by
    intro layer hlayer head _
    have hcount : device.cache.rowCount layer = 0 := by
      rw [KvCache.rowCount, hfresh, List.getElem?_replicate, if_pos hlayer, Option.getD_some]
    rw [headRows, hcount, List.range_zero, List.map_nil]
  have hrows := headRows_run ops device (fun _ _ => []) hempty hcalls
  refine ⟨fun layer hlayer head hhead => ?_, fun op before after e hrun hnone => ?_,
    fun before after layer keys values tokens hrun => ?_,
    fun _ _ _ _ _ _ h h' hne => headBaseElements_apart h h' hne⟩
  · rw [← hrows layer hlayer head hhead]
    exact ⟨_, _, (KvCacheOp.run ops device).2.headRegion hlayer hhead⟩
  · exact ((step_spec op before).error rfl hrun).eq_or_refused.resolve_right hnone
  · exact hrun.elim appendLayerAsync_written appendLayer_written

/-- A cache of one layer and two heads with room for two rows of one element each. -/
private def sampleConfig : KvCacheConfig :=
  ⟨1, 2, 1, 2, Nat.one_pos, Nat.two_pos, Nat.one_pos, Nat.two_pos, by decide⟩

private def sampleCache : DeviceKvCache sampleConfig 4 ℕ where
  context := 0
  cache := .ofAllocations .accepting [0, 0, 0, 0] [0, 0, 0, 0] rfl rfl
  keysPtr := 256
  valuesPtr := 512
  keysPtr_of_empty := nofun
  keys_fits := by decide
  values_fits := by decide

private def sampleBuffer (devicePtr : ℕ) (h : devicePtr < 4096) (first second : ℕ) :
    DeviceBuffer 4 ℕ where
  context := 0
  devicePtr := devicePtr
  contents := [first, second]
  devicePtr_of_empty := nofun
  fits := by simp only [List.length_cons, List.length_nil, wordLimit]; omega

/-- An append, a rejected append, a truncation and a reset. -/
private def sampleOps : List (KvCacheOp 4 ℕ) :=
  [.appendLayer 0 (sampleBuffer 768 (by decide) 1 2) (sampleBuffer 1024 (by decide) 3 4) 1,
    .appendLayerAsync 0 (sampleBuffer 256 (by decide) 5 6) (sampleBuffer 1024 (by decide) 7 8) 1,
    .truncate 1, .resetLayer 7]

theorem refines_headLogs_sampleOps :
    (∀ layer < 1, ∀ head < 2, ∃ start stop,
      (KvCacheOp.run sampleOps sampleCache).2.HeadRegion
        (logsAfter sampleConfig (fun _ _ => []) (KvCacheOp.run sampleOps sampleCache).1 layer head)
          layer head start stop) ∧ (KvCacheOp.run sampleOps sampleCache).1.length = 2 :=
  ⟨(refines_headLogs sampleOps sampleCache rfl (by decide +kernel)).1, by decide +kernel⟩

end DeviceKvCache

end NNIS
