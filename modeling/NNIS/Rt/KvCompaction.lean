import Mathlib.Data.List.Perm.Subperm
import NNIS.Rt.KvCacheRows

/-!
# Physical compaction of the cache

The whole-cache compaction of `nnis-rt/src/kv_compaction.rs`: an explicit increasing selection of
active rows is staged row by row into scratch tensors, appended to a fresh cache, and the fresh
cache takes the place of the old one once every layer has been rebuilt. The logical positions of
the rows are the caller's concern.

An element stands for its bytes. The code also computes the size of a row and the addresses of a
region in bytes; these fit whenever the allocations do, as in `Rt.KvCacheDevice`.

## Main definitions

* `validateRetainedPositions`, `stageSelectedRows`, `rebuildAndSwap`, `compactKvCache`.

## Main results

* `compactKvCache_spec` — a compaction keeps exactly the selected rows of every layer, or changes
  no active row.
-/

set_option autoImplicit false

namespace NNIS

variable {config : KvCacheConfig} {V : Type}

namespace KvCache

/-- The scan of `validateRetainedPositions` after a previous position. -/
def validateRetainedAfter (active : ℕ) : Option ℕ → List ℕ → Except NnisError Unit
  | _, [] => .ok ⟨⟩
  | previous, position :: rest =>
    if active ≤ position then
      .error (.invalidInput
        s!"KV compaction position {position} is outside active prefix 0..{active}")
    else if previous.any fun last => position ≤ last then
      .error (.invalidInput "KV compaction positions must be strictly increasing and unique")
    else validateRetainedAfter active (some position) rest

/-- A selection is accepted when it is strictly increasing and inside the active rows. -/
def validateRetainedPositions (active : ℕ) (retained : List ℕ) : Except NnisError Unit :=
  validateRetainedAfter active none retained

/-- One row's part of a staging: its head, its source position and where it is read and written. -/
structure KvRowCopy where
  head : ℕ
  sourcePosition : ℕ
  source : ℕ
  destination : ℕ

/-- The first element of a selected row in the cache. -/
def stageSourceElement (config : KvCacheConfig) (layer head position : ℕ) : Except NnisError ℕ :=
  orInvalid "KV compaction source offset overflows usize" do
    let value ← checkedMul layer config.heads
    let value ← checkedAdd value head
    let value ← checkedMul value config.capacity
    let value ← checkedAdd value position
    checkedMul value config.headDim

/-- The first element of a selected row in the scratch tensors. -/
def stageDestinationElement (config : KvCacheConfig) (retained head position : ℕ) :
    Except NnisError ℕ :=
  orInvalid "KV compaction destination offset overflows usize" do
    let value ← checkedMul head retained
    let value ← checkedAdd value position
    checkedMul value config.headDim

/-- The bound check on a region that is staged. -/
def stageRegion (elements first size : ℕ) : Except NnisError ℕ :=
  checkedRegion "KV compaction region overflows usize"
    (fun last => s!"KV compaction region {first}..{last} exceeds buffer length {elements}")
    elements first size

/-- The transfer plan for one selected row of one head. Both tensors of a side have one length, so
their regions pass one check. -/
def planRowCopy (config : KvCacheConfig) (layer retained scratchElements : ℕ)
    (row : ℕ × ℕ × ℕ) : Except NnisError KvRowCopy := do
  let (head, destinationPosition, sourcePosition) := row
  let sourceElement ← stageSourceElement config layer head sourcePosition
  let destinationElement ← stageDestinationElement config retained head destinationPosition
  let source ← stageRegion config.elementsPerSide sourceElement config.headDim
  let destination ← stageRegion scratchElements destinationElement config.headDim
  return { head, sourcePosition, source, destination }

/-- The heads and positions of a staging, in the order of their copies. -/
def stagedRows (config : KvCacheConfig) (retained : List ℕ) : List (ℕ × ℕ × ℕ) :=
  (List.range config.heads).flatMap fun head =>
    retained.zipIdx.map fun (source, destination) => (head, destination, source)

/-- Scratch tensors of a staging. -/
structure Scratch (V : Type) where
  keys : List V
  values : List V

/-- A fresh allocation with arbitrary contents. -/
def uninitialized (contents : ℕ → V) (elements : ℕ) : List V :=
  (List.range elements).map contents

@[simp] theorem length_uninitialized (contents : ℕ → V) (elements : ℕ) :
    (uninitialized contents elements).length = elements := by
  rw [uninitialized, List.length_map, List.length_range]

/-- Copy the selected rows of a layer into scratch tensors. -/
def stageSelectedRows (layer : ℕ) (retained : List ℕ) (scratch : Scratch V) :
    Fallible (KvCache config V) NnisError (Scratch V) := do
  let _ ← Fallible.ofExcept (orInvalid "KV compaction copy count overflows usize"
    (checkedMul config.heads retained.length))
  let copies ← Fallible.ofExcept ((stagedRows config retained).mapM
    (planRowCopy config layer retained.length scratch.keys.length))
  call (.prepareStaging layer)
  let scratch ← Fallible.foldEach copies scratch fun copy scratch => do
    let cache ← Fallible.get
    callOrDrain (.stageKey layer copy.head copy.sourcePosition)
    callOrDrain (.stageValue layer copy.head copy.sourcePosition)
    return {
      keys := writeRegion scratch.keys copy.destination
        (region cache.keys copy.source config.headDim)
      values := writeRegion scratch.values copy.destination
        (region cache.values copy.source config.headDim) }
  synchronize .stage
  return scratch

/-- Work on another cache of the same stream; it is returned. -/
def onReplacement (replacement : KvCache config V)
    (m : Fallible (KvCache config V) NnisError PUnit) :
    Fallible (KvCache config V) NnisError (KvCache config V) :=
  ⟨fun cache =>
    let outcome := m.run (replacement.withStream cache.stream)
    (outcome.1.map fun _ => outcome.2, cache.withStream outcome.2.stream)⟩

/-- The number of elements of one scratch tensor. -/
def compactionScratchElements (config : KvCacheConfig) (retained : ℕ) : Except NnisError ℕ :=
  orInvalid "KV compaction scratch shape overflows usize" do
    let value ← checkedMul config.heads retained
    checkedMul value config.headDim

/-- The replacement with one more layer rebuilt from its selection. -/
def rebuildLayer (contents : ℕ → ℕ → V) (layer : ℕ) (selection : List ℕ)
    (replacement : KvCache config V) :
    Fallible (KvCache config V) NnisError (KvCache config V) :=
  if selection = [] then pure replacement
  else do
    let elements ← Fallible.ofExcept (compactionScratchElements config selection.length)
    call .allocate
    call .allocate
    let scratch ← stageSelectedRows layer selection
      ⟨uninitialized (contents (2 * layer + 2)) elements,
        uninitialized (contents (2 * layer + 3)) elements⟩
    onReplacement replacement
      (appendLayer layer scratch.keys scratch.values selection.length)

/-- Build a complete replacement, one selection per layer, and swap it into place. The contents of
fresh allocations are a parameter. -/
def rebuildAndSwap (contents : ℕ → ℕ → V) (selections : List (List ℕ)) :
    Fallible (KvCache config V) NnisError PUnit :=
  if selections.length ≠ config.layers then
    Fallible.fail (.invalidInput (s!"KV compaction requires one selection per layer; got " ++
      s!"{selections.length} for {config.layers} layers"))
  else do
    Fallible.forEach selections.zipIdx fun (selection, layer) => do
      let cache ← Fallible.get
      let active ← Fallible.ofExcept (cache.len layer)
      Fallible.ofExcept (validateRetainedPositions active selection)
      let _ ← Fallible.ofExcept (compactionScratchElements config selection.length)
    synchronize .rebuild
    call .allocate
    call .allocate
    let cache ← Fallible.get
    let replacement ← Fallible.foldEach selections.zipIdx
      (ofAllocations cache.stream (uninitialized (contents 0) config.elementsPerSide)
        (uninitialized (contents 1) config.elementsPerSide) (length_uninitialized _ _)
        (length_uninitialized _ _))
      fun (selection, layer) replacement => rebuildLayer contents layer selection replacement
    synchronize .replaced
    Fallible.modify fun cache => replacement.withStream cache.stream

/-- Every other layer holds as many rows as the first one. -/
def requireUniformLengths (cache : KvCache config V) (active : ℕ) :
    Fallible (KvCache config V) NnisError PUnit :=
  Fallible.forEach (List.range config.layers).tail fun layer => do
    let layerActive ← Fallible.ofExcept (cache.len layer)
    if layerActive ≠ active then
      Fallible.fail (.invalidInput
        (s!"whole-cache KV compaction requires uniform active lengths; layer 0 has {active} " ++
          s!"rows but layer {layer} has {layerActive}"))
    else pure ⟨⟩

/-- Compact every layer of a cache to the same explicit selection of active rows. -/
def compactKvCache (contents : ℕ → ℕ → V) (retained : List ℕ) :
    Fallible (KvCache config V) NnisError PUnit := do
  let cache ← Fallible.get
  let active ← Fallible.ofExcept (cache.len 0)
  requireUniformLengths cache active
  Fallible.ofExcept (validateRetainedPositions active retained)
  if retained = List.range active then synchronize .compact
  else if retained = [] then do
    synchronize .compact
    Fallible.modify reset
  else do
    let _ ← Fallible.ofExcept (compactionScratchElements config retained.length)
    rebuildAndSwap contents (List.replicate config.layers retained)

/-! ### Selections -/

private theorem validateRetainedAfter_ok {active : ℕ} {previous : Option ℕ} {retained : List ℕ}
    (h : validateRetainedAfter active previous retained = .ok ⟨⟩) :
    (∀ p ∈ retained, p < active) ∧ retained.Pairwise (· < ·) ∧
      ∀ last, previous = some last → ∀ p ∈ retained, last < p := by
  induction retained generalizing previous with
  | nil =>
    exact ⟨fun p hp => absurd hp List.not_mem_nil, List.Pairwise.nil,
      fun _ _ p hp => absurd hp List.not_mem_nil⟩
  | cons position rest ih =>
    rw [validateRetainedAfter] at h
    split_ifs at h with hactive hlast
    obtain ⟨hbound, hpair, hafter⟩ := ih h
    have hrest := hafter position rfl
    refine ⟨?_, List.pairwise_cons.2 ⟨hrest, hpair⟩, ?_⟩
    · intro p hp
      rcases List.mem_cons.1 hp with rfl | hp
      · omega
      · exact hbound p hp
    · rintro last rfl p hp
      have hlt : last < position := by
        simpa only [Option.any_some, decide_eq_true_eq, Nat.not_le] using hlast
      rcases List.mem_cons.1 hp with rfl | hp
      · exact hlt
      · exact hlt.trans (hrest p hp)

/-- An accepted selection is strictly increasing and inside the active rows. -/
theorem validateRetainedPositions_ok {active : ℕ} {retained : List ℕ}
    (h : validateRetainedPositions active retained = .ok ⟨⟩) :
    (∀ p ∈ retained, p < active) ∧ retained.Pairwise (· < ·) :=
  let h' := validateRetainedAfter_ok h
  ⟨h'.1, h'.2.1⟩

/-! ### Staging -/

/-- The copies of a staging in order: head by head, the selected positions of each head. -/
theorem stagedRows_eq_map (retained : List ℕ) :
    stagedRows config retained = (List.range (config.heads * retained.length)).map fun n =>
      (n / retained.length, n % retained.length, retained.getD (n % retained.length) 0) := by
  have hhead (head : ℕ) :
      (retained.zipIdx.map fun (source, destination) => (head, destination, source)) =
        (List.range retained.length).map fun j =>
          ((head * retained.length + j) / retained.length,
            (head * retained.length + j) % retained.length,
            retained.getD ((head * retained.length + j) % retained.length) 0) := by
    refine List.ext_getElem (by simp only [List.length_map, List.length_zipIdx,
      List.length_range]) fun j h₁ h₂ => ?_
    have hj : j < retained.length := by simpa only [List.length_map, List.length_zipIdx] using h₁
    have hpos : 0 < retained.length := by omega
    simp only [List.getElem_map, List.getElem_zipIdx, List.getElem_range, Nat.zero_add,
      Nat.mul_comm head, Nat.mul_add_div hpos, Nat.mul_add_mod, Nat.mod_eq_of_lt hj,
      Nat.div_eq_of_lt hj, Nat.add_zero, List.getD_eq_getElem?_getD, List.getElem?_eq_getElem hj,
      Option.getD_some]
  unfold stagedRows
  induction config.heads with
  | zero => simp only [List.range_zero, List.flatMap_nil, Nat.zero_mul, List.map_nil]
  | succ heads ih =>
    rw [List.range_succ, List.flatMap_append, ih, List.flatMap_singleton, hhead, Nat.succ_mul,
      List.range_add, List.map_append, List.map_map]
    rfl

/-- The same cache after some calls on its stream. -/
def Later (c₀ c : KvCache config V) : Prop :=
  ∃ s, c = c₀.withStream s ∧ Stream.Since anyCall c₀.stream s

theorem Later.refl (c : KvCache config V) : Later c c := ⟨c.stream, rfl, .refl _ _⟩

theorem Later.trans {c₀ c₁ c₂ : KvCache config V} (h : Later c₀ c₁) (h' : Later c₁ c₂) :
    Later c₀ c₂ := by
  obtain ⟨s, rfl, hs⟩ := h
  obtain ⟨s', rfl, hs'⟩ := h'
  exact ⟨s', rfl, hs.trans hs'⟩

theorem Later.rows_eq {c₀ c : KvCache config V} (h : Later c₀ c) (l : ℕ) :
    c.rows l = c₀.rows l := by
  obtain ⟨s, rfl, -⟩ := h
  rfl

theorem Later.since {c₀ c : KvCache config V} (h : Later c₀ c) :
    Stream.Since anyCall c₀.stream c.stream := by
  obtain ⟨s, rfl, hs⟩ := h
  exact hs

theorem Later.accepting {c₀ c : KvCache config V} (h : Later c₀ c) (ha : c₀.stream.Accepting) :
    c.stream.Accepting := by
  obtain ⟨s, rfl, hs⟩ := h
  exact hs.accepting ha

/-- The same cache after some calls on its stream, which does not accept every call. -/
def Refused (c₀ c : KvCache config V) : Prop := Later c₀ c ∧ ¬ c₀.stream.Accepting

theorem call_later (c₀ : KvCache config V) (site : CallSite) :
    Fallible.Spec (Later c₀) (call site) (fun _ => Later c₀) fun _ => Refused c₀ := by
  have hany : ∀ ok, anyCall (site, ok) := fun _ => trivial
  refine Fallible.Spec.of_forall fun c₁ hc₁ =>
    (c₁.call_spec site hany).conseq (fun _ hc => hc) ?_ ?_
  · rintro - c ⟨s, rfl, hs⟩
    exact hc₁.trans ⟨s, rfl, hs⟩
  · rintro - c ⟨s, rfl, hs, -, hna⟩
    exact ⟨hc₁.trans ⟨s, rfl, hs⟩, fun ha => hna (hs.accepting (hc₁.accepting ha))⟩

theorem callOrDrain_later (c₀ : KvCache config V) (site : CallSite) :
    Fallible.Spec (Later c₀) (callOrDrain site) (fun _ => Later c₀) fun _ => Refused c₀ := by
  have hany : ∀ ok, anyCall (site, ok) := fun _ => trivial
  have hdrain : ∀ ok, anyCall (.synchronize .drain, ok) := fun _ => trivial
  refine Fallible.Spec.of_forall fun c₁ hc₁ =>
    (c₁.callOrDrain_spec site hany hdrain).conseq (fun _ hc => hc) ?_ ?_
  · rintro - c ⟨s, rfl, hs⟩
    exact hc₁.trans ⟨s, rfl, hs⟩
  · rintro - c ⟨s, rfl, hs, -, hna⟩
    exact ⟨hc₁.trans ⟨s, rfl, hs⟩, fun ha => hna (hs.accepting (hc₁.accepting ha))⟩

/-- The scratch tensors after the first `n` copies: their first `n` rows are the selected rows of
the cache, head by head. -/
structure Staged (c₀ : KvCache config V) (layer : ℕ) (retained : List ℕ) (n : ℕ)
    (scratch : Scratch V) : Prop where
  length_keys : scratch.keys.length = config.heads * retained.length * config.headDim
  length_values : scratch.values.length = config.heads * retained.length * config.headDim
  keys_read : ∀ m < n, region scratch.keys (m * config.headDim) config.headDim =
    region c₀.keys (config.slot layer (m / retained.length)
      (retained.getD (m % retained.length) 0) * config.headDim) config.headDim
  values_read : ∀ m < n, region scratch.values (m * config.headDim) config.headDim =
    region c₀.values (config.slot layer (m / retained.length)
      (retained.getD (m % retained.length) 0) * config.headDim) config.headDim

namespace Staged

variable {c₀ : KvCache config V} {layer n : ℕ} {retained : List ℕ} {scratch : Scratch V}

private theorem read_succ {buffer source : List V} (first : ℕ → ℕ)
    (hn : n < config.heads * retained.length)
    (hlen : buffer.length = config.heads * retained.length * config.headDim)
    (hsource : first n + config.headDim ≤ source.length)
    (h : ∀ m < n, region buffer (m * config.headDim) config.headDim =
      region source (first m) config.headDim) :
    ∀ m < n + 1, region (writeRegion buffer (n * config.headDim)
        (region source (first n) config.headDim)) (m * config.headDim) config.headDim =
      region source (first m) config.headDim := by
  intro m hm
  have hregion := length_region hsource
  rcases Nat.lt_or_eq_of_le (Nat.le_of_lt_succ hm) with hlt | rfl
  · rw [region_writeRegion_of_before, h m hlt]
    rw [← Nat.succ_mul]
    exact Nat.mul_le_mul_right _ hlt
  · have hfit : m * config.headDim + (region source (first m) config.headDim).length ≤
        buffer.length := by
      rw [hregion, hlen, ← Nat.succ_mul]
      exact Nat.mul_le_mul_right _ hn
    rw [region_writeRegion_of_within hfit le_rfl (by rw [hregion]), Nat.sub_self,
      region_region _ _ _ (by rw [Nat.zero_add]), Nat.add_zero]

/-- The copies of one more row. -/
theorem succ (hlayer : layer < config.layers) (hretained : ∀ p ∈ retained, p < config.capacity)
    (hn : n < config.heads * retained.length) (h : Staged c₀ layer retained n scratch) :
    Staged c₀ layer retained (n + 1)
      { keys := writeRegion scratch.keys (n * config.headDim)
          (region c₀.keys (config.slot layer (n / retained.length)
            (retained.getD (n % retained.length) 0) * config.headDim) config.headDim)
        values := writeRegion scratch.values (n * config.headDim)
          (region c₀.values (config.slot layer (n / retained.length)
            (retained.getD (n % retained.length) 0) * config.headDim) config.headDim) } := by
  have hpos : 0 < retained.length := Nat.pos_of_ne_zero fun h0 => by
    rw [h0, Nat.mul_zero] at hn
    exact Nat.not_lt_zero _ hn
  have hhead : n / retained.length < config.heads :=
    Nat.div_lt_of_lt_mul (Nat.mul_comm _ _ ▸ hn)
  have hmod := Nat.mod_lt n hpos
  have hposition : retained.getD (n % retained.length) 0 < config.capacity := by
    rw [List.getD_eq_getElem?_getD, List.getElem?_eq_getElem hmod, Option.getD_some]
    exact hretained _ (List.getElem_mem hmod)
  have hfit : config.slot layer (n / retained.length) (retained.getD (n % retained.length) 0) *
      config.headDim + config.headDim ≤ config.elementsPerSide := by
    rw [← Nat.succ_mul]
    exact KvCacheConfig.slot_le hlayer hhead hposition
  refine ⟨by rw [length_writeRegion, h.length_keys], by rw [length_writeRegion, h.length_values],
    ?_, ?_⟩
  · exact read_succ (fun m => config.slot layer (m / retained.length)
      (retained.getD (m % retained.length) 0) * config.headDim) hn h.length_keys
      (c₀.length_keys ▸ hfit) h.keys_read
  · exact read_succ (fun m => config.slot layer (m / retained.length)
      (retained.getD (m % retained.length) 0) * config.headDim) hn h.length_values
      (c₀.length_values ▸ hfit) h.values_read

/-- With all copies made, the scratch tensors pack the selected rows. -/
theorem packedRows_eq (h : Staged c₀ layer retained (config.heads * retained.length) scratch) :
    packedRows config retained.length scratch.keys scratch.values =
      retained.map (c₀.rowAt layer) := by
  refine List.ext_getElem (by simp only [packedRows, List.length_map, List.length_range])
    fun t h₁ h₂ => ?_
  have ht : t < retained.length := by simpa only [List.length_map] using h₂
  have hpos : 0 < retained.length := by omega
  have hlt {head : ℕ} (hh : head < config.heads) :
      head * retained.length + t < config.heads * retained.length := by
    have : (head + 1) * retained.length ≤ config.heads * retained.length :=
      Nat.mul_le_mul_right _ hh
    rw [Nat.succ_mul] at this
    omega
  have hdiv (head : ℕ) : (head * retained.length + t) / retained.length = head := by
    rw [Nat.mul_comm, Nat.mul_add_div hpos, Nat.div_eq_of_lt ht, Nat.add_zero]
  have hmod (head : ℕ) : (head * retained.length + t) % retained.length = t := by
    rw [Nat.mul_comm, Nat.mul_add_mod, Nat.mod_eq_of_lt ht]
  have hget : retained.getD t 0 = retained[t] := by
    rw [List.getD_eq_getElem?_getD, List.getElem?_eq_getElem ht, Option.getD_some]
  simp only [packedRows, List.getElem_map, List.getElem_range, rowAt]
  refine KvRow.ext ?_ ?_
  · refine List.flatMap_congr fun head hh => ?_
    rw [h.keys_read _ (hlt (List.mem_range.1 hh)), hdiv, hmod, hget]
  · refine List.flatMap_congr fun head hh => ?_
    rw [h.values_read _ (hlt (List.mem_range.1 hh)), hdiv, hmod, hget]

end Staged

/-- The copies planned for a staging, in order. -/
def plannedStaging (config : KvCacheConfig) (layer : ℕ) (retained : List ℕ) : List KvRowCopy :=
  (List.range (config.heads * retained.length)).map fun n =>
    ⟨n / retained.length, retained.getD (n % retained.length) 0,
      config.slot layer (n / retained.length) (retained.getD (n % retained.length) 0) *
        config.headDim, n * config.headDim⟩

theorem planRowCopy_eq {layer : ℕ} {retained : List ℕ} (hlayer : layer < config.layers)
    (hretained : ∀ p ∈ retained, p < config.capacity) (hcount : retained.length ≤ config.capacity)
    {n : ℕ} (hn : n < config.heads * retained.length) :
    planRowCopy config layer retained.length (config.heads * retained.length * config.headDim)
        (n / retained.length, n % retained.length, retained.getD (n % retained.length) 0) =
      .ok ⟨n / retained.length, retained.getD (n % retained.length) 0,
        config.slot layer (n / retained.length) (retained.getD (n % retained.length) 0) *
          config.headDim, n * config.headDim⟩ := by
  have hpos : 0 < retained.length := Nat.pos_of_ne_zero fun h0 => by
    rw [h0, Nat.mul_zero] at hn
    exact Nat.not_lt_zero _ hn
  have hlt := config.elementsPerSide_lt
  have hhead : n / retained.length < config.heads :=
    Nat.div_lt_of_lt_mul (Nat.mul_comm _ _ ▸ hn)
  have hmod := Nat.mod_lt n hpos
  have hposition : retained.getD (n % retained.length) 0 < config.capacity := by
    rw [List.getD_eq_getElem?_getD, List.getElem?_eq_getElem hmod, Option.getD_some]
    exact hretained _ (List.getElem_mem hmod)
  generalize retained.getD (n % retained.length) 0 = position at hposition ⊢
  have hfit : config.slot layer (n / retained.length) position * config.headDim +
      config.headDim ≤ config.elementsPerSide := by
    rw [← Nat.succ_mul]
    exact KvCacheConfig.slot_le hlayer hhead hposition
  have hscratch : n * config.headDim + config.headDim ≤
      config.heads * retained.length * config.headDim := by
    rw [← Nat.succ_mul]
    exact Nat.mul_le_mul_right _ hn
  have hsize : config.heads * retained.length * config.headDim ≤ config.elementsPerSide :=
    appendElements_le hcount
  have hd := config.headDim_pos
  have hc := config.capacity_pos
  have h₃ : config.slot layer (n / retained.length) position * config.headDim < wordLimit := by
    omega
  have h₂ : config.slot layer (n / retained.length) position < wordLimit :=
    (Nat.le_mul_of_pos_right _ hd).trans_lt h₃
  have h₁ : (layer * config.heads + n / retained.length) * config.capacity < wordLimit :=
    (Nat.le_add_right _ position).trans_lt h₂
  have h₀ : layer * config.heads + n / retained.length < wordLimit :=
    (Nat.le_mul_of_pos_right _ hc).trans_lt h₁
  have hn' : n / retained.length * retained.length + n % retained.length = n := by
    rw [Nat.mul_comm]
    exact Nat.div_add_mod _ _
  have hnd : n * config.headDim < wordLimit := by omega
  have hnw : n < wordLimit := (Nat.le_mul_of_pos_right _ hd).trans_lt hnd
  have hnr : n / retained.length * retained.length < wordLimit := by omega
  have hsource : stageSourceElement config layer (n / retained.length) position =
      .ok (config.slot layer (n / retained.length) position * config.headDim) := by
    rw [stageSourceElement, checkedMul_of_lt ((Nat.le_add_right _ _).trans_lt h₀)]
    show orInvalid _ ((checkedAdd _ _).bind _) = _
    rw [checkedAdd_of_lt h₀, Option.bind_some, checkedMul_of_lt h₁]
    show orInvalid _ ((checkedAdd _ _).bind _) = _
    rw [checkedAdd_of_lt h₂, Option.bind_some]
    exact congrArg (orInvalid _) (checkedMul_of_lt h₃)
  have hdestination : stageDestinationElement config retained.length (n / retained.length)
      (n % retained.length) = .ok (n * config.headDim) := by
    rw [stageDestinationElement, checkedMul_of_lt hnr]
    show orInvalid _ ((checkedAdd _ _).bind _) = _
    rw [checkedAdd_of_lt (hn'.symm ▸ hnw), Option.bind_some, hn', checkedMul_of_lt hnd, orInvalid]
  rw [planRowCopy]
  show (stageSourceElement _ _ _ _ >>= fun sourceElement =>
    stageDestinationElement _ _ _ _ >>= fun destinationElement =>
      stageRegion _ sourceElement _ >>= fun source =>
        stageRegion _ destinationElement _ >>= fun destination =>
          pure (⟨_, position, source, destination⟩ : KvRowCopy)) = _
  rw [hsource, hdestination]
  show (stageRegion _ _ _ >>= fun source => stageRegion _ _ _ >>= fun destination =>
    pure (⟨_, position, source, destination⟩ : KvRowCopy)) = _
  rw [stageRegion, checkedRegion_eq _ _ hfit le_rfl, stageRegion,
    checkedRegion_eq _ _ hscratch hsize]
  rfl

/-- A staging packs the selected rows of its layer and leaves the cache as it was. -/
theorem stageSelectedRows_spec (c₀ : KvCache config V) {layer : ℕ} {retained : List ℕ}
    (hlayer : layer < config.layers) (hretained : ∀ p ∈ retained, p < config.capacity)
    (hcount : retained.length ≤ config.capacity) {scratch : Scratch V}
    (hkeys : scratch.keys.length = config.heads * retained.length * config.headDim)
    (hvalues : scratch.values.length = config.heads * retained.length * config.headDim) :
    Fallible.Spec (Later c₀) (stageSelectedRows layer retained scratch)
      (fun scratch c => Later c₀ c ∧
        Staged c₀ layer retained (config.heads * retained.length) scratch)
      fun _ => Refused c₀ := by
  have hplan : (stagedRows config retained).mapM
      (planRowCopy config layer retained.length scratch.keys.length) =
        .ok (plannedStaging config layer retained) := by
    rw [stagedRows_eq_map, hkeys, List.mapM_map]
    exact mapM_eq_ok fun n hn =>
      planRowCopy_eq hlayer hretained hcount (List.mem_range.1 hn)
  have hcopies : orInvalid "KV compaction copy count overflows usize"
      (checkedMul config.heads retained.length) = .ok (config.heads * retained.length) := by
    have hfit := (appendElements_le hcount).trans_lt config.elementsPerSide_lt
    rw [checkedMul_of_lt ((Nat.le_mul_of_pos_right _ config.headDim_pos).trans_lt hfit)]
    rfl
  have hstart : Staged c₀ layer retained 0 scratch :=
    ⟨hkeys, hvalues, fun m hm => absurd hm (Nat.not_lt_zero m),
      fun m hm => absurd hm (Nat.not_lt_zero m)⟩
  have hlen : (plannedStaging config layer retained).length =
      config.heads * retained.length := by
    rw [plannedStaging, List.length_map, List.length_range]
  -- Each round copies the next row.
  let Copies (rest : List KvRowCopy) (scratch : Scratch V) (c : KvCache config V) : Prop :=
    Later c₀ c ∧ ∃ n ≤ config.heads * retained.length,
      rest = (plannedStaging config layer retained).drop n ∧ Staged c₀ layer retained n scratch
  have hround (copy : KvRowCopy) (rest : List KvRowCopy) (scratch : Scratch V) :
      Fallible.Spec (Copies (copy :: rest) scratch)
        (do
          let cache ← Fallible.get
          callOrDrain (.stageKey layer copy.head copy.sourcePosition)
          callOrDrain (.stageValue layer copy.head copy.sourcePosition)
          return {
            keys := writeRegion scratch.keys copy.destination
              (region cache.keys copy.source config.headDim)
            values := writeRegion scratch.values copy.destination
              (region cache.values copy.source config.headDim) })
        (Copies rest) fun _ => Refused c₀ := by
    refine Fallible.Spec.of_forall fun c₁ ⟨hc₁, n, hn, hrest, hstaged⟩ => ?_
    have hn' : n < config.heads * retained.length := by
      by_contra hno
      rw [List.drop_of_length_le (by omega)] at hrest
      cases hrest
    rw [List.drop_eq_getElem_cons (hlen ▸ hn')] at hrest
    obtain ⟨hcopy, htail⟩ := List.cons.inj hrest
    have hcopy : copy = ⟨n / retained.length, retained.getD (n % retained.length) 0,
        config.slot layer (n / retained.length) (retained.getD (n % retained.length) 0) *
          config.headDim, n * config.headDim⟩ := by
      rw [hcopy]
      simp only [plannedStaging, List.getElem_map, List.getElem_range]
    subst hcopy
    refine Fallible.Spec.bind (R := fun cache c => cache = c₁ ∧ Later c₀ c)
      (Fallible.Spec.get ?_) fun cache => Fallible.Spec.of_forall fun c₂ ⟨hcache, hc₂⟩ => ?_
    · rintro c rfl
      exact ⟨rfl, hc₁⟩
    · subst hcache
      obtain ⟨s, rfl, -⟩ := hc₁
      refine Fallible.Spec.bind ((c₀.callOrDrain_later _).conseq
        (fun c hc => hc ▸ hc₂) (fun _ _ hc => hc) fun _ _ hc => hc) fun _ =>
          Fallible.Spec.bind (c₀.callOrDrain_later _) fun _ => Fallible.Spec.pure _ ?_
      intro c hc
      exact ⟨hc, n + 1, hn', htail, hstaged.succ hlayer hretained hn'⟩
  unfold stageSelectedRows
  rw [hcopies, Fallible.ofExcept_ok_bind]
  refine Fallible.Spec.bind (R := fun copies c =>
    copies = plannedStaging config layer retained ∧ Later c₀ c)
    (Fallible.Spec.ofExcept ?_ ?_) fun copies => Fallible.Spec.of_forall fun c₁ ⟨hcopies, hc₁⟩ => ?_
  · rintro copies hr c hc
    rw [hplan] at hr
    exact ⟨(Except.ok.inj hr).symm, hc⟩
  · rintro e hr
    rw [hplan] at hr
    cases hr
  · subst hcopies
    refine Fallible.Spec.bind ((c₀.call_later _).conseq (fun c hc => hc ▸ hc₁)
      (fun _ _ hc => hc) fun _ _ hc => hc) fun _ =>
      Fallible.Spec.bind ((Fallible.Spec.foldEach Copies _ scratch hround).conseq
        (fun c hc => ⟨hc, 0, Nat.zero_le _, rfl, hstart⟩) (fun _ _ hc => hc)
          fun _ _ hc => hc) fun scratch =>
            Fallible.Spec.of_forall fun c₂ ⟨hc₂, n, hn, hrest, hst⟩ =>
      Fallible.Spec.bind ((c₀.call_later _).conseq (fun c hc => hc ▸ hc₂)
        (fun _ _ hc => hc) fun _ _ hc => hc) fun _ => Fallible.Spec.pure _ fun c hc => ⟨hc, ?_⟩
    have hle : config.heads * retained.length ≤ n := by
      have h := congrArg List.length hrest
      rw [List.length_nil, List.length_drop, hlen] at h
      omega
    rwa [Nat.le_antisymm hn hle] at hst

/-! ### Rebuilding -/

theorem appendLayer_spec (c₀ : KvCache config V) {layer tokens : ℕ} {keys values : List V}
    (hlayer : layer < config.layers) (hlast : c₀.rowCount layer + tokens ≤ config.capacity)
    (hkeys : keys.length = config.heads * tokens * config.headDim)
    (hvalues : values.length = config.heads * tokens * config.headDim) :
    Fallible.Spec (fun c => c = c₀) (appendLayer layer keys values tokens)
      (fun _ c => Stream.Since anyCall c₀.stream c.stream ∧ ∀ l, c.rows l =
        if l = layer then c₀.rows l ++ packedRows config tokens keys values else c₀.rows l)
      fun _ c => Stream.Since anyCall c₀.stream c.stream ∧ ¬ c₀.stream.Accepting := by
  refine Fallible.Spec.bind ((c₀.appendLayerAsync_spec hlayer hlast hkeys hvalues).conseq
    (fun _ hc => hc) (fun _ _ hc => hc) fun _ c hc => ⟨hc.since.mono fun _ _ => trivial,
      fun ha => hc.not_accepting (hc.since.accepting ha)⟩) fun _ =>
      Fallible.Spec.of_forall fun c₁ hc₁ => ?_
  have hsince : Stream.Since anyCall c₀.stream c₁.stream := hc₁.since.mono fun _ _ => trivial
  refine (c₁.call_later _).conseq (fun c hc => hc ▸ Later.refl c₁) ?_ ?_
  · rintro - c ⟨s, rfl, hs⟩
    exact ⟨hsince.trans hs, hc₁.rows_eq⟩
  · rintro - c ⟨⟨s, rfl, hs⟩, hna⟩
    exact ⟨hsince.trans hs, fun ha => hna (hsince.accepting ha)⟩

/-- Work on a replacement only moves the stream of the cache. -/
theorem onReplacement_spec (c₀ r : KvCache config V)
    (m : Fallible (KvCache config V) NnisError PUnit) (Q : KvCache config V → Prop)
    (h : ∀ s, Fallible.Spec (fun c => c = r.withStream s) m
      (fun _ c => Stream.Since anyCall s c.stream ∧ Q c)
      fun _ c => Stream.Since anyCall s c.stream ∧ ¬ s.Accepting) :
    Fallible.Spec (Later c₀) (onReplacement r m) (fun r' c => Later c₀ c ∧ Q r')
      fun _ => Refused c₀ := by
  rintro c ⟨s, rfl, hs⟩
  have hpost := h s _ rfl
  show Fallible.Post _ _ ((m.run (r.withStream s)).1.map fun _ => (m.run (r.withStream s)).2,
    c₀.withStream (m.run (r.withStream s)).2.stream)
  generalize m.run (r.withStream s) = outcome at hpost
  rcases outcome with ⟨e | _, r'⟩
  · exact ⟨⟨r'.stream, rfl, hs.trans hpost.1⟩, fun ha => hpost.2 (hs.accepting ha)⟩
  · exact ⟨⟨r'.stream, rfl, hs.trans hpost.1⟩, hpost.2⟩

/-- The scratch tensors of a selection that fits have their size. -/
theorem compactionScratchElements_eq {retained : ℕ} (h : retained ≤ config.capacity) :
    compactionScratchElements config retained =
      .ok (config.heads * retained * config.headDim) := by
  obtain ⟨-, hheads, hsize, -⟩ := append_sizes_lt config h
  rw [compactionScratchElements, checkedMul_of_lt hheads]
  exact congrArg (orInvalid _) (checkedMul_of_lt hsize)

/-- One more layer of the replacement holds the selected rows; the cache is as it was. -/
theorem rebuildLayer_spec (c₀ : KvCache config V) (contents : ℕ → ℕ → V) {layer : ℕ}
    {selection : List ℕ} (hlayer : layer < config.layers)
    (hselection : ∀ p ∈ selection, p < config.capacity)
    (hcount : selection.length ≤ config.capacity) (r : KvCache config V) (hr : r.rows layer = []) :
    Fallible.Spec (Later c₀) (rebuildLayer contents layer selection r)
      (fun r' c => Later c₀ c ∧ ∀ l, r'.rows l =
        if l = layer then selection.map (c₀.rowAt layer) else r.rows l)
      fun _ => Refused c₀ := by
  unfold rebuildLayer
  split_ifs with hempty
  · refine Fallible.Spec.pure _ fun c hc => ⟨hc, fun l => ?_⟩
    rw [hempty, List.map_nil]
    split_ifs with hl
    · rw [hl, hr]
    · rfl
  · rw [compactionScratchElements_eq hcount]
    refine Fallible.Spec.bind (R := fun elements c =>
      elements = config.heads * selection.length * config.headDim ∧ Later c₀ c)
      (Fallible.Spec.ofExcept (fun _ he _ hc => ⟨(Except.ok.inj he).symm, hc⟩)
        fun _ he => by cases he) fun elements => Fallible.Spec.of_forall fun c₁ ⟨he, hc₁⟩ => ?_
    subst he
    refine Fallible.Spec.bind ((c₀.call_later _).conseq (fun c hc => hc ▸ hc₁)
      (fun _ _ hc => hc) fun _ _ hc => hc) fun _ => Fallible.Spec.bind (c₀.call_later _) fun _ =>
        Fallible.Spec.bind (c₀.stageSelectedRows_spec hlayer hselection hcount
          (length_uninitialized _ _) (length_uninitialized _ _)) fun scratch =>
            Fallible.Spec.of_forall fun c₂ ⟨hc₂, hstaged⟩ => ?_
    have hlast : r.rowCount layer + selection.length ≤ config.capacity := by
      have h0 : r.rowCount layer = 0 := by rw [← length_rows, hr, List.length_nil]
      omega
    refine (onReplacement_spec c₀ r _ (fun r' => ∀ l, r'.rows l = if l = layer then
      r.rows l ++ packedRows config selection.length scratch.keys scratch.values else r.rows l)
      fun s => ((r.withStream s).appendLayer_spec hlayer hlast hstaged.length_keys
        hstaged.length_values)).conseq (fun c hc => hc ▸ hc₂) ?_ fun _ _ hc => hc
    rintro r' c ⟨hc, hrows⟩
    refine ⟨hc, fun l => ?_⟩
    rw [hrows l, hstaged.packedRows_eq]
    split_ifs with hl
    · rw [hl]
      show r.rows layer ++ _ = _
      rw [hr, List.nil_append]
    · rfl

/-- A selection for a layer is accepted. -/
def Selected (c₀ : KvCache config V) (selections : List (List ℕ)) (l : ℕ) : Prop :=
  validateRetainedPositions (c₀.rowCount l) (selections.getD l []) = .ok ⟨⟩

theorem length_le_of_selected {active : ℕ} {retained : List ℕ}
    (h : validateRetainedPositions active retained = .ok ⟨⟩) : retained.length ≤ active := by
  obtain ⟨hbound, hpair⟩ := validateRetainedPositions_ok h
  have hsub : retained ⊆ List.range active := fun p hp => List.mem_range.2 (hbound p hp)
  have hnodup : retained.Nodup := hpair.imp Nat.ne_of_lt
  calc retained.length ≤ (List.range active).length :=
        (List.Nodup.subperm hnodup hsub).length_le
    _ = active := List.length_range

/-- A list of selections with its layers, from one layer on. -/
private theorem zipIdx_drop_cons {selections : List (List ℕ)} {k : ℕ} {x : List ℕ × ℕ}
    {rest : List (List ℕ × ℕ)} (h : x :: rest = selections.zipIdx.drop k) :
    k < selections.length ∧ x = (selections.getD k [], k) ∧
      rest = selections.zipIdx.drop (k + 1) := by
  have hk : k < selections.zipIdx.length := by
    by_contra hno
    rw [List.drop_of_length_le (by omega)] at h
    cases h
  have hk' : k < selections.length := by rwa [List.length_zipIdx] at hk
  rw [List.drop_eq_getElem_cons hk] at h
  obtain ⟨hx, hrest⟩ := List.cons.inj h
  refine ⟨hk', ?_, hrest⟩
  rw [hx, List.getElem_zipIdx, Nat.zero_add, List.getD_eq_getElem?_getD,
    List.getElem?_eq_getElem hk', Option.getD_some]

private theorem zipIdx_drop_nil {selections : List (List ℕ)} {k : ℕ}
    (h : [] = selections.zipIdx.drop k) : selections.length ≤ k := by
  have h' := congrArg List.length h
  rw [List.length_nil, List.length_drop, List.length_zipIdx] at h'
  omega

/-- There is a selection for every layer, and all of them are accepted. -/
def AllSelected (c₀ : KvCache config V) (selections : List (List ℕ)) : Prop :=
  selections.length = config.layers ∧ ∀ l < config.layers, Selected c₀ selections l

/-- The same cache after some calls on its stream, which does not accept every call if the request
was accepted. -/
def Rejected (c₀ : KvCache config V) (accepted : Prop) (c : KvCache config V) : Prop :=
  Later c₀ c ∧ (accepted → ¬ c₀.stream.Accepting)

theorem Refused.rejected {c₀ c : KvCache config V} (h : Refused c₀ c) (accepted : Prop) :
    Rejected c₀ accepted c := ⟨h.1, fun _ => h.2⟩

/-- A rebuild gives every layer its selected rows, or fails and leaves the cache as it was. -/
theorem rebuildAndSwap_spec (c₀ : KvCache config V) (contents : ℕ → ℕ → V)
    (selections : List (List ℕ)) :
    Fallible.Spec (fun c => c = c₀) (rebuildAndSwap contents selections)
      (fun _ c => Stream.Since anyCall c₀.stream c.stream ∧
        ∀ l < config.layers, Selected c₀ selections l ∧
          c.rows l = (selections.getD l []).map (c₀.rowAt l))
      fun _ => Rejected c₀ (AllSelected c₀ selections) := by
  unfold rebuildAndSwap
  split_ifs with hlen
  · exact Fallible.Spec.fail _ fun c hc => ⟨hc ▸ Later.refl c₀, fun hall => absurd hall.1 hlen⟩
  have hlen := Decidable.of_not_not hlen
  -- The validation loop accepts the selections one layer after the other.
  let Valid (rest : List (List ℕ × ℕ)) (c : KvCache config V) : Prop := Later c₀ c ∧
    ∃ k, rest = selections.zipIdx.drop k ∧ ∀ l < k, Selected c₀ selections l
  -- The rebuilding loop fills the replacement one layer after the other.
  let Rebuilt (rest : List (List ℕ × ℕ)) (r c : KvCache config V) : Prop := Later c₀ c ∧
    ∃ k, rest = selections.zipIdx.drop k ∧ ∀ l, r.rows l =
      if l < k ∧ l < config.layers then (selections.getD l []).map (c₀.rowAt l) else []
  have hvalid : Fallible.Spec (fun c => c = c₀) (Fallible.forEach selections.zipIdx
      fun (x : List ℕ × ℕ) => do
        let cache ← Fallible.get
        let active ← Fallible.ofExcept (cache.len x.2)
        Fallible.ofExcept (validateRetainedPositions active x.1)
        let _ ← Fallible.ofExcept (compactionScratchElements config x.1.length))
      (fun _ c => Later c₀ c ∧ ∀ l < config.layers, Selected c₀ selections l)
      fun _ => Rejected c₀ (AllSelected c₀ selections) := by
    refine (Fallible.Spec.forEach Valid _ fun x rest => ?_).conseq
      (fun c hc => ⟨hc ▸ Later.refl c₀, 0, rfl, fun l hl => absurd hl (Nat.not_lt_zero l)⟩) ?_
      fun _ _ hc => hc
    · refine Fallible.Spec.of_forall ?_
      rintro c₁ ⟨hc₁, k, hrest, hsel⟩
      obtain ⟨hk, rfl, htail⟩ := zipIdx_drop_cons hrest
      obtain ⟨s, rfl, hs⟩ := hc₁
      rintro c rfl
      simp only [Fallible.run_bind, Fallible.run_get, Fallible.run_ofExcept,
        len_eq (c₀.withStream s) (hlen ▸ hk)]
      cases hv : validateRetainedPositions ((c₀.withStream s).rowCount k)
        (selections.getD k []) with
      | error e =>
        refine ⟨⟨s, rfl, hs⟩, fun hall => ?_⟩
        cases hv.symm.trans (hall.2 k (hlen ▸ hk))
      | ok u =>
        rw [compactionScratchElements_eq ((length_le_of_selected hv).trans
          ((c₀.withStream s).rowCount_le k))]
        refine ⟨⟨s, rfl, hs⟩, k + 1, htail, fun l hl => ?_⟩
        rcases Nat.lt_or_eq_of_le (Nat.le_of_lt_succ hl) with hlt | rfl
        · exact hsel l hlt
        · exact hv
    · rintro - c ⟨hc, k, hrest, hsel⟩
      have hk := zipIdx_drop_nil hrest
      exact ⟨hc, fun l hl => hsel l (by omega)⟩
  have hrefused {α : Type} {m : Fallible (KvCache config V) NnisError α}
      {P : KvCache config V → Prop} {Q : α → KvCache config V → Prop}
      (h : Fallible.Spec P m Q fun _ => Refused c₀) :
      Fallible.Spec P m Q fun _ => Rejected c₀ (AllSelected c₀ selections) :=
    h.conseq (fun _ hc => hc) (fun _ _ hc => hc) fun _ _ hc => hc.rejected _
  refine Fallible.Spec.bind hvalid fun _ => hrefused <| Fallible.Spec.of_forall fun c₁ h₁ =>
    Fallible.Spec.bind ((c₀.call_later _).conseq (fun c hc => hc ▸ h₁.1) (fun _ _ hc => hc)
      fun _ _ hc => hc) fun _ => Fallible.Spec.bind (c₀.call_later _) fun _ =>
        Fallible.Spec.bind (c₀.call_later _) fun _ =>
          Fallible.Spec.bind (R := fun _ => Later c₀) (Fallible.Spec.get fun c hc => hc)
            fun cache => Fallible.Spec.bind (R := fun r c => Later c₀ c ∧ ∀ l < config.layers,
              r.rows l = (selections.getD l []).map (c₀.rowAt l)) ?_ fun r =>
                Fallible.Spec.of_forall fun c₂ h₂ =>
                  Fallible.Spec.bind ((c₀.call_later _).conseq (fun c hc => hc ▸ h₂.1)
                    (fun _ _ hc => hc) fun _ _ hc => hc) fun _ =>
                      Fallible.Spec.modify _ fun c hc =>
                        ⟨hc.since, fun l hl => ⟨h₁.2 l hl, h₂.2 l hl⟩⟩
  refine (Fallible.Spec.foldEach Rebuilt _ _ fun x rest r => ?_).conseq
    (fun c hc => ⟨hc, 0, rfl, fun l => ?_⟩) ?_ fun _ _ hc => hc
  · refine Fallible.Spec.of_forall ?_
    rintro c₂ ⟨hc₂, k, hrest, hr⟩
    obtain ⟨hk, rfl, htail⟩ := zipIdx_drop_cons hrest
    have hk : k < config.layers := hlen ▸ hk
    obtain ⟨hbound, -⟩ := validateRetainedPositions_ok (h₁.2 k hk)
    have hcount := (length_le_of_selected (h₁.2 k hk)).trans (c₀.rowCount_le k)
    have hempty : r.rows k = [] := by rw [hr k, if_neg (by omega)]
    refine (c₀.rebuildLayer_spec contents hk (fun p hp => (hbound p hp).trans_le
      (c₀.rowCount_le k)) hcount r hempty).conseq (fun c hc => hc ▸ hc₂) ?_ fun _ _ hc => hc
    rintro r' c ⟨hc, hrows⟩
    refine ⟨hc, k + 1, htail, fun l => ?_⟩
    rw [hrows l]
    by_cases hl : l = k
    · rw [if_pos hl, hl, if_pos ⟨by omega, hk⟩]
    · rw [if_neg hl, hr l]
      exact if_congr (by omega) rfl rfl
  · rw [if_neg (by omega), rows, rowCount]
    show List.map _ (List.range ((List.replicate config.layers 0)[l]?.getD 0)) = _
    rw [List.getElem?_replicate]
    split_ifs <;> rfl
  · rintro r c ⟨hc, k, hrest, hr⟩
    have hk := zipIdx_drop_nil hrest
    refine ⟨hc, fun l hl => ?_⟩
    rw [hr l, if_pos ⟨by omega, hl⟩]

/-! ### Whole-cache compaction -/

/-- The selected rows of a list. -/
def selectRows (retained : List ℕ) (rows : List (KvRow V)) : List (KvRow V) :=
  retained.filterMap fun p => rows[p]?

theorem selectRows_rows (c₀ : KvCache config V) {l : ℕ} {retained : List ℕ}
    (h : ∀ p ∈ retained, p < c₀.rowCount l) :
    selectRows retained (c₀.rows l) = retained.map (c₀.rowAt l) := by
  unfold selectRows
  induction retained with
  | nil => rfl
  | cons p retained ih =>
    have hp := h p List.mem_cons_self
    rw [List.filterMap_cons, List.map_cons, ← ih fun q hq => h q (List.mem_cons_of_mem p hq), rows,
      List.getElem?_map, List.getElem?_range hp, Option.map_some]

/-- A selection for the whole cache is accepted: all layers hold as many rows, and it selects some
of them. -/
def Uniform (c₀ : KvCache config V) (retained : List ℕ) : Prop :=
  (∀ l < config.layers, c₀.rowCount l = c₀.rowCount 0) ∧
    validateRetainedPositions (c₀.rowCount 0) retained = .ok ⟨⟩

/-- A compaction that returns keeps exactly the selected rows of every layer, which all held the
same number of rows; one that fails changes no active row. -/
theorem compactKvCache_spec (c₀ : KvCache config V) (contents : ℕ → ℕ → V) (retained : List ℕ) :
    Fallible.Spec (fun c => c = c₀) (compactKvCache contents retained)
      (fun _ c => Stream.Since anyCall c₀.stream c.stream ∧
        validateRetainedPositions (c₀.rowCount 0) retained = .ok ⟨⟩ ∧
          ∀ l < config.layers, c₀.rowCount l = c₀.rowCount 0 ∧
            c.rows l = selectRows retained (c₀.rows l))
      fun _ => Rejected c₀ (c₀.Uniform retained) := by
  have hrefused {α : Type} {m : Fallible (KvCache config V) NnisError α}
      {P : KvCache config V → Prop} {Q : α → KvCache config V → Prop}
      (h : Fallible.Spec P m Q fun _ => Refused c₀) :
      Fallible.Spec P m Q fun _ => Rejected c₀ (c₀.Uniform retained) :=
    h.conseq (fun _ hc => hc) (fun _ _ hc => hc) fun _ _ hc => hc.rejected _
  -- The scan of the other layers finds the length of the first one.
  let Scanned (rest : List ℕ) (c : KvCache config V) : Prop := c = c₀ ∧
    ∃ k, 0 < k ∧ rest = (List.range config.layers).drop k ∧
      ∀ l < k, l < config.layers → c₀.rowCount l = c₀.rowCount 0
  have huniform : Fallible.Spec (fun c => c = c₀)
      (requireUniformLengths c₀ (c₀.rowCount 0))
      (fun _ c => c = c₀ ∧ ∀ l < config.layers, c₀.rowCount l = c₀.rowCount 0)
      fun _ => Rejected c₀ (c₀.Uniform retained) := by
    unfold requireUniformLengths
    refine (Fallible.Spec.forEach Scanned _ fun layer rest => ?_).conseq
      (fun c hc => ⟨hc, 1, Nat.one_pos, List.drop_one.symm, fun l hl _ => ?_⟩) ?_ fun _ _ hc => hc
    · refine Fallible.Spec.of_forall ?_
      rintro c₁ ⟨hc₁, k, hk, hrest, hsame⟩
      have hlt : k < (List.range config.layers).length := by
        by_contra hno
        rw [List.drop_of_length_le (by omega)] at hrest
        cases hrest
      rw [List.drop_eq_getElem_cons hlt, List.getElem_range] at hrest
      obtain ⟨rfl, htail⟩ := List.cons.inj hrest
      rw [List.length_range] at hlt
      rintro c rfl
      subst hc₁
      simp only [Fallible.run_bind, Fallible.run_ofExcept, len_eq c hlt]
      by_cases he : c.rowCount layer = c.rowCount 0
      · rw [if_neg (not_not.2 he)]
        refine ⟨rfl, layer + 1, Nat.succ_pos _, htail, fun l hl hl' => ?_⟩
        rcases Nat.lt_or_eq_of_le (Nat.le_of_lt_succ hl) with hll | rfl
        · exact hsame l hll hl'
        · exact he
      · rw [if_pos he]
        exact ⟨Later.refl c, fun hall => absurd (hall.1 layer hlt) he⟩
    · rw [Nat.lt_one_iff.1 hl]
    · rintro - c ⟨hc, k, -, hrest, hsame⟩
      refine ⟨hc, fun l hl => hsame l ?_ hl⟩
      have h := congrArg List.length hrest
      rw [List.length_nil, List.length_drop, List.length_range] at h
      omega
  -- The three ways of keeping the selected rows of uniform layers.
  have hselect (hsame : ∀ l < config.layers, c₀.rowCount l = c₀.rowCount 0)
      (hvalid : validateRetainedPositions (c₀.rowCount 0) retained = .ok ⟨⟩) (c : KvCache config V)
      (hc : ∀ l < config.layers, c.rows l = retained.map (c₀.rowAt l)) :
      validateRetainedPositions (c₀.rowCount 0) retained = .ok ⟨⟩ ∧
        ∀ l < config.layers, c₀.rowCount l = c₀.rowCount 0 ∧
          c.rows l = selectRows retained (c₀.rows l) := by
    refine ⟨hvalid, fun l hl => ⟨hsame l hl, ?_⟩⟩
    rw [hc l hl, c₀.selectRows_rows fun p hp => ?_]
    rw [hsame l hl]
    exact (validateRetainedPositions_ok hvalid).1 p hp
  have hpoint : Fallible.Spec (fun c => c = c₀) (compactKvCache contents retained)
      (fun _ c => Stream.Since anyCall c₀.stream c.stream ∧
        (∀ l < config.layers, c₀.rowCount l = c₀.rowCount 0) ∧
          validateRetainedPositions (c₀.rowCount 0) retained = .ok ⟨⟩ ∧
            ∀ l < config.layers, c.rows l = retained.map (c₀.rowAt l))
      fun _ => Rejected c₀ (c₀.Uniform retained) := by
    refine Fallible.Spec.bind (R := fun cache c => cache = c₀ ∧ c = c₀)
      (Fallible.Spec.get fun c hc => ⟨hc, hc⟩) fun cache => Fallible.Spec.of_forall ?_
    rintro c₁ ⟨hcache, hc₁⟩
    rw [hcache, hc₁, c₀.len_eq config.layers_pos]
    refine Fallible.Spec.bind (R := fun active c => active = c₀.rowCount 0 ∧ c = c₀)
      (Fallible.Spec.ofExcept (fun _ ha _ hc => ⟨(Except.ok.inj ha).symm, hc⟩)
        fun _ he => by cases he) fun active => Fallible.Spec.of_forall ?_
    rintro c₁ ⟨ha, hc₁⟩
    rw [ha, hc₁]
    refine Fallible.Spec.bind huniform fun _ => Fallible.Spec.of_forall ?_
    rintro c₂ ⟨hc₂, hsame⟩
    refine Fallible.Spec.bind (R := fun _ c => c = c₀ ∧
        validateRetainedPositions (c₀.rowCount 0) retained = .ok ⟨⟩)
        (Fallible.Spec.ofExcept (fun _ hv c hc => ⟨hc.trans hc₂, hv⟩) fun _ he c hc => ?_) fun _ =>
          Fallible.Spec.of_forall ?_
    · rw [hc, hc₂]
      exact ⟨Later.refl _, fun hall => by cases he.symm.trans hall.2⟩
    · rintro c₃ ⟨hc₃, hvalid⟩
      rw [hc₃]
      split_ifs with hidentity hempty
      · refine (hrefused (c₀.call_later _)).conseq (fun c hc => hc ▸ Later.refl c₀) ?_
          fun _ _ hc => hc
        rintro - c hc
        refine ⟨hc.since, hsame, hvalid, fun l hl => ?_⟩
        rw [hc.rows_eq l, rows, hsame l hl, hidentity]
      · refine Fallible.Spec.bind
          ((hrefused (c₀.call_later _)).conseq (fun c hc => hc ▸ Later.refl c₀)
          (fun _ _ hc => hc) fun _ _ hc => hc) fun _ => Fallible.Spec.modify _ fun c hc => ?_
        refine ⟨hc.since, hsame, hvalid, fun l hl => ?_⟩
        rw [reset, rows_fillLengths c _ (fun _ _ => Nat.zero_le _), List.take_zero, hempty,
          List.map_nil]
      · have hcount := (length_le_of_selected hvalid).trans (c₀.rowCount_le 0)
        refine Fallible.Spec.bind (R := fun _ c => c = c₀) (Fallible.Spec.ofExcept
          (fun _ _ _ hc => hc) fun _ he _ _ => by
            cases he.symm.trans (compactionScratchElements_eq hcount))
          fun _ => (c₀.rebuildAndSwap_spec contents _).conseq (fun _ hc => hc) ?_
            fun _ c hc => ⟨hc.1, fun hall => hc.2 ⟨List.length_replicate, fun l hl => ?_⟩⟩
        swap
        · rw [Selected, List.getD_eq_getElem?_getD, List.getElem?_replicate, if_pos hl,
            Option.getD_some, hall.1 l hl]
          exact hall.2
        rintro - c hc
        refine ⟨hc.1, hsame, hvalid, fun l hl => ?_⟩
        rw [(hc.2 l hl).2, List.getD_eq_getElem?_getD, List.getElem?_replicate, if_pos hl,
          Option.getD_some]
  exact hpoint.conseq (fun _ hc => hc)
    (fun _ c h => ⟨h.1, hselect h.2.1 h.2.2.1 c h.2.2.2⟩)
    fun _ _ hc => hc

end KvCache

end NNIS
