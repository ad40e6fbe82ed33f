import NNIS.Rt.KvCacheDevice

/-!
# The cache as one list of rows per layer and head

What the cache is for: it keeps, for each layer and head, the key and value rows that have been
appended and not cut off, in order. An operation that is accepted has its effect on these lists, and
one that is rejected by a check has none.

## Main definitions

* `HeadLogs` — a list of rows per layer and head.
* `KvCacheOp`, `KvCacheOp.effect`, `KvCacheOp.step`, `KvCacheOp.run`.
* `DeviceKvCache.headRows` — the active rows of a layer and head.

## Main results

* `DeviceKvCache.step_spec`, `DeviceKvCache.headRows_run` — operations and runs of them.
* `DeviceKvCache.headRegion` — the region of a head holds its rows.
-/

set_option autoImplicit false

namespace NNIS

variable {config : KvCacheConfig} {size : ℕ} {V : Type}

/-! ### The list model -/

/-- A list of rows per layer and head. -/
abbrev HeadLogs (V : Type) := ℕ → ℕ → List (KvRow V)

/-- Operations on a cache. -/
inductive KvCacheOp (size : ℕ) (V : Type)
  | appendLayer (layer : ℕ) (keys values : DeviceBuffer size V) (tokens : ℕ)
  | appendLayerAsync (layer : ℕ) (keys values : DeviceBuffer size V) (tokens : ℕ)
  | truncate (length : ℕ)
  | resetLayer (layer : ℕ)
  | reset

/-- The row of a head and token of packed `[heads][tokens][head_dim]` tensors. -/
def packedHeadRow (config : KvCacheConfig) (tokens : ℕ) (keys values : List V) (head token : ℕ) :
    KvRow V where
  key := region keys ((head * tokens + token) * config.headDim) config.headDim
  value := region values ((head * tokens + token) * config.headDim) config.headDim

/-- The lists with the packed rows of a layer appended. -/
def HeadLogs.append (config : KvCacheConfig) (layer tokens : ℕ) (keys values : List V)
    (logs : HeadLogs V) : HeadLogs V := fun l head =>
  if l = layer then
    logs l head ++ (List.range tokens).map (packedHeadRow config tokens keys values head)
  else logs l head

namespace KvCacheOp

/-- The effect of an accepted operation on the lists. -/
def effect (config : KvCacheConfig) : KvCacheOp size V → HeadLogs V → HeadLogs V
  | appendLayer layer keys values tokens =>
    HeadLogs.append config layer tokens keys.contents values.contents
  | appendLayerAsync layer keys values tokens =>
    HeadLogs.append config layer tokens keys.contents values.contents
  | truncate length => fun logs l head => (logs l head).take length
  | resetLayer layer => fun logs l head => if l = layer then [] else logs l head
  | reset => fun _ _ _ => []

/-- An operation of the cache. -/
def step : KvCacheOp size V → Fallible (DeviceKvCache config size V) NnisError PUnit
  | appendLayer layer keys values tokens => DeviceKvCache.appendLayer layer keys values tokens
  | appendLayerAsync layer keys values tokens =>
    DeviceKvCache.appendLayerAsync layer keys values tokens
  | truncate length => DeviceKvCache.truncate length
  | resetLayer layer => DeviceKvCache.resetLayer layer
  | reset => DeviceKvCache.reset

/-- Run operations one after the other: the operations that were accepted, and the cache at the
end. -/
def run : List (KvCacheOp size V) → DeviceKvCache config size V →
    List (KvCacheOp size V) × DeviceKvCache config size V
  | [], device => ([], device)
  | op :: ops, device =>
    match op.step.run device with
    | (.ok _, device') => (op :: (run ops device').1, (run ops device').2)
    | (.error _, device') => run ops device'

end KvCacheOp

/-! ### The rows of a head -/

/-- The part of a row for one head. -/
def KvRow.head (config : KvCacheConfig) (row : KvRow V) (head : ℕ) : KvRow V where
  key := region row.key (head * config.headDim) config.headDim
  value := region row.value (head * config.headDim) config.headDim

/-- The rows of a head in packed rows. -/
theorem map_head_packedRows {tokens head : ℕ} {keys values : List V}
    (hkeys : keys.length = config.heads * tokens * config.headDim)
    (hvalues : values.length = config.heads * tokens * config.headDim)
    (hhead : head < config.heads) :
    ((packedRows config tokens keys values).map fun row => row.head config head) =
      (List.range tokens).map (packedHeadRow config tokens keys values head) := by
  have hfit {buffer : List V} (hlen : buffer.length = config.heads * tokens * config.headDim)
      {token h : ℕ} (htoken : token < tokens) (hh : h < config.heads) :
      (region buffer ((h * tokens + token) * config.headDim) config.headDim).length =
        config.headDim := by
    refine length_region ?_
    have hslot : h * tokens + token + 1 ≤ config.heads * tokens := by
      have hnext : (h + 1) * tokens ≤ config.heads * tokens := Nat.mul_le_mul_right _ hh
      rw [Nat.succ_mul] at hnext
      omega
    rw [hlen, ← Nat.succ_mul]
    exact Nat.mul_le_mul_right _ hslot
  rw [packedRows, List.map_map]
  refine List.map_congr_left fun token htoken => ?_
  rw [List.mem_range] at htoken
  simp only [Function.comp_apply, KvRow.head, packedHeadRow]
  rw [region_flatMap_range (fun h hh => hfit hkeys htoken hh) hhead,
    region_flatMap_range (fun h hh => hfit hvalues htoken hh) hhead]

namespace DeviceKvCache

/-- The active rows of a layer and head. -/
def headRows (device : DeviceKvCache config size V) : HeadLogs V := fun layer head =>
  (List.range (device.cache.rowCount layer)).map fun position =>
    { key := region device.cache.keys (config.slot layer head position * config.headDim)
        config.headDim
      value := region device.cache.values (config.slot layer head position * config.headDim)
        config.headDim }

variable {device : DeviceKvCache config size V}

/-- The rows of a head are the parts of the rows of its layer. -/
theorem headRows_eq {layer head : ℕ}
    (hlayer : layer < config.layers) (hhead : head < config.heads) :
    device.headRows layer head =
      (device.cache.rows layer).map fun row => row.head config head := by
  have hfit {buffer : List V} (hlen : buffer.length = config.elementsPerSide) {position h : ℕ}
      (hposition : position < config.capacity) (hh : h < config.heads) :
      (region buffer (config.slot layer h position * config.headDim) config.headDim).length =
        config.headDim := by
    refine length_region ?_
    rw [hlen, ← Nat.succ_mul]
    exact KvCacheConfig.slot_le hlayer hh hposition
  rw [KvCache.rows, List.map_map, headRows]
  refine List.map_congr_left fun position hposition => ?_
  have hlt := (List.mem_range.1 hposition).trans_le (device.cache.rowCount_le layer)
  simp only [Function.comp_apply, KvRow.head, KvCache.rowAt]
  rw [region_flatMap_range (fun h hh => hfit device.cache.length_keys hlt hh) hhead,
    region_flatMap_range (fun h hh => hfit device.cache.length_values hlt hh) hhead]

@[simp] theorem length_headRows (layer head : ℕ) :
    (device.headRows layer head).length = device.cache.rowCount layer := by
  rw [headRows, List.length_map, List.length_range]

theorem headRows_withCache {cache : KvCache config V} {layer head : ℕ}
    (hlayer : layer < config.layers) (hhead : head < config.heads) :
    (device.withCache cache).headRows layer head =
      (cache.rows layer).map fun row => row.head config head :=
  headRows_eq hlayer hhead

/-! ### Operations -/

/-- The outcome of an accepted operation: its effect on the lists. -/
structure Effected (op : KvCacheOp size V) (device device' : DeviceKvCache config size V) :
    Prop where
  since : Stream.Since anyCall device.cache.stream device'.cache.stream
  headRows_eq : ∀ layer < config.layers, ∀ head < config.heads,
    device'.headRows layer head = op.effect config device.headRows layer head

/-- The outcome of an operation that failed: it was rejected by a check and changed nothing, or a
call has been refused. -/
structure Rejected (device device' : DeviceKvCache config size V) : Prop where
  since : Stream.Since anyCall device.cache.stream device'.cache.stream
  eq_or_refused : device' = device ∨ device'.cache.stream.Refused fun _ => true

theorem Rejected.refl (device : DeviceKvCache config size V) : Rejected device device :=
  ⟨Stream.Since.refl _ _, .inl rfl⟩

theorem onCache_spec {α : Type} {m : Fallible (KvCache config V) NnisError α}
    (device : DeviceKvCache config size V) {Q : α → KvCache config V → Prop}
    {E : NnisError → KvCache config V → Prop}
    (h : Fallible.Spec (fun c => c = device.cache) m Q E) :
    Fallible.Spec (fun d => d = device) (onCache m)
      (fun a d => ∃ c, Q a c ∧ d = device.withCache c)
      fun e d => ∃ c, E e c ∧ d = device.withCache c :=
  (Fallible.Spec.zoom device h).conseq (fun _ hd => ⟨hd, hd ▸ rfl⟩) (fun _ _ hd => hd)
    fun _ _ hd => hd

private theorem since_anyCall {kind : CallRecord → Prop} {s s' : Stream}
    (h : Stream.Since kind s s') : Stream.Since anyCall s s' := h.mono fun _ _ => trivial

private theorem appendLayerAsync_effect (device : DeviceKvCache config size V) (layer : ℕ)
    (keys values : DeviceBuffer size V) (tokens : ℕ) :
    Fallible.Spec (fun d => d = device) (appendLayerAsync layer keys values tokens)
      (fun _ => Effected (.appendLayerAsync layer keys values tokens) device)
      fun _ => Rejected device := by
  rintro d rfl
  by_cases h : d.Admissible layer keys values tokens
  · rw [appendLayerAsync_of_admissible h]
    refine (onCache_spec d (d.cache.appendLayerAsync_spec h.layer_lt h.fits h.length_keys
      h.length_values)).conseq (fun _ hd => hd) ?_ ?_ d rfl
    · rintro - d' ⟨c, hc, rfl⟩
      refine ⟨since_anyCall hc.since, fun l hl head hhead => ?_⟩
      rw [headRows_withCache hl hhead, hc.rows_eq, KvCacheOp.effect, HeadLogs.append,
        headRows_eq hl hhead]
      by_cases hlayer : l = layer
      · rw [if_pos hlayer, if_pos hlayer, List.map_append,
          map_head_packedRows h.length_keys h.length_values hhead]
      · rw [if_neg hlayer, if_neg hlayer]
    · rintro - d' ⟨c, hc, rfl⟩
      obtain ⟨site, -, hmem⟩ := hc.refused
      exact ⟨since_anyCall hc.since, .inr ⟨site, rfl, hmem⟩⟩
  · obtain ⟨what, hrun⟩ := appendLayerAsync_of_not_admissible h
    rw [hrun]
    exact Rejected.refl d

private theorem appendLayer_effect (device : DeviceKvCache config size V) (layer : ℕ)
    (keys values : DeviceBuffer size V) (tokens : ℕ) :
    Fallible.Spec (fun d => d = device) (appendLayer layer keys values tokens)
      (fun _ => Effected (.appendLayer layer keys values tokens) device)
      fun _ => Rejected device := by
  have hany : ∀ ok, anyCall (.waitAppend layer, ok) := fun _ => trivial
  refine (appendLayerAsync_effect device layer keys values tokens).bind fun _ =>
    Fallible.Spec.of_forall fun d hd => (onCache_spec d (d.cache.call_spec (.waitAppend layer)
      hany)).conseq (fun _ h => h) ?_ ?_
  · rintro - d' ⟨c, ⟨s, rfl, hs⟩, rfl⟩
    exact ⟨hd.since.trans hs, hd.headRows_eq⟩
  · rintro - d' ⟨c, ⟨s, rfl, hs, hmem, -⟩, rfl⟩
    exact ⟨hd.since.trans hs, .inr ⟨_, rfl, hmem⟩⟩

private theorem truncate_effect (device : DeviceKvCache config size V) (length : ℕ) :
    Fallible.Spec (fun d => d = device) (truncate length)
      (fun _ => Effected (.truncate length) device) fun _ => Rejected device := by
  refine (onCache_spec device (device.cache.truncate_spec length)).conseq (fun _ hd => hd) ?_ ?_
  · rintro - d' ⟨c, ⟨hstream, hrows, -⟩, rfl⟩
    refine ⟨?_, fun l hl head hhead => ?_⟩
    · show Stream.Since anyCall device.cache.stream c.stream
      rw [hstream]
      exact Stream.Since.refl _ _
    · show _ = (device.headRows l head).take length
      rw [headRows_withCache hl hhead, hrows, headRows_eq hl hhead, List.map_take]
  · rintro - d' ⟨c, ⟨rfl, -⟩, rfl⟩
    exact Rejected.refl device

private theorem resetLayer_effect (device : DeviceKvCache config size V) (layer : ℕ) :
    Fallible.Spec (fun d => d = device) (resetLayer layer)
      (fun _ => Effected (.resetLayer layer) device) fun _ => Rejected device := by
  have hreset : Fallible.Spec (fun c => c = device.cache) (KvCache.resetLayer layer)
      (fun _ c => layer < config.layers ∧ c = device.cache.setLength layer 0 (Nat.zero_le _))
      fun _ c => c = device.cache := by
    rintro c rfl
    simp only [KvCache.resetLayer, Fallible.run_bind, Fallible.run_get, Fallible.run_ofExcept]
    by_cases hlayer : layer < config.layers
    · rw [device.cache.len_eq hlayer]
      exact ⟨hlayer, rfl⟩
    · have hnone : device.cache.lengths[layer]? = none :=
        List.getElem?_eq_none (device.cache.length_lengths ▸ Nat.le_of_not_lt hlayer)
      rw [KvCache.len, hnone]
      rfl
  refine (onCache_spec device hreset).conseq (fun _ hd => hd) ?_ ?_
  · rintro - d' ⟨c, ⟨hlayer, rfl⟩, rfl⟩
    refine ⟨Stream.Since.refl _ _, fun l hl head hhead => ?_⟩
    have hcount := device.cache.rowCount_setLength hlayer (Nat.zero_le _) l
    show (List.range ((device.cache.setLength layer 0 (Nat.zero_le _)).rowCount l)).map _ =
      if l = layer then [] else device.headRows l head
    rw [hcount]
    split_ifs with heq
    · rfl
    · rfl
  · rintro - d' ⟨c, rfl, rfl⟩
    exact Rejected.refl device

private theorem reset_effect (device : DeviceKvCache config size V) :
    Fallible.Spec (fun d => d = device) reset
      (fun _ => Effected .reset device) fun _ => Rejected device := by
  rintro d rfl
  refine ⟨Stream.Since.refl _ _, fun l hl head hhead => ?_⟩
  show (List.range (KvCache.rowCount (d.cache.fillLengths 0 (Nat.zero_le _)) l)).map _ = []
  rw [d.cache.rowCount_fillLengths, if_pos hl]
  rfl

/-- An operation has its effect on the lists, or was rejected. -/
theorem step_spec (op : KvCacheOp size V) (device : DeviceKvCache config size V) :
    Fallible.Spec (fun d => d = device) op.step (fun _ => Effected op device)
      fun _ => Rejected device :=
  match op with
  | .appendLayer layer keys values tokens => appendLayer_effect device layer keys values tokens
  | .appendLayerAsync layer keys values tokens =>
    appendLayerAsync_effect device layer keys values tokens
  | .truncate length => truncate_effect device length
  | .resetLayer layer => resetLayer_effect device layer
  | .reset => reset_effect device

/-! ### Runs -/

/-- The lists after the accepted operations of a run. -/
def logsAfter (config : KvCacheConfig) (logs : HeadLogs V) (accepted : List (KvCacheOp size V)) :
    HeadLogs V :=
  accepted.foldl (fun logs op => op.effect config logs) logs

private theorem effect_congr (op : KvCacheOp size V) {logs logs' : HeadLogs V}
    (h : ∀ layer < config.layers, ∀ head < config.heads, logs layer head = logs' layer head) :
    ∀ layer < config.layers, ∀ head < config.heads,
      op.effect config logs layer head = op.effect config logs' layer head := by
  intro layer hlayer head hhead
  cases op with
  | reset => rfl
  | truncate length => exact congrArg (List.take length) (h layer hlayer head hhead)
  | resetLayer l =>
    simp only [KvCacheOp.effect, h layer hlayer head hhead]
  | appendLayer l keys values tokens =>
    simp only [KvCacheOp.effect, HeadLogs.append, h layer hlayer head hhead]
  | appendLayerAsync l keys values tokens =>
    simp only [KvCacheOp.effect, HeadLogs.append, h layer hlayer head hhead]

/-- The calls of a run. -/
theorem since_run (ops : List (KvCacheOp size V)) (device : DeviceKvCache config size V) :
    Stream.Since anyCall device.cache.stream (KvCacheOp.run ops device).2.cache.stream := by
  induction ops generalizing device with
  | nil => exact Stream.Since.refl _ _
  | cons op ops ih =>
    rw [KvCacheOp.run]
    rcases hrun : op.step.run device with ⟨_ | _, device'⟩
    · exact ((step_spec op device).error rfl hrun).since.trans (ih device')
    · exact ((step_spec op device).ok rfl hrun).since.trans (ih device')

/-- A run without refused calls has the effects of its accepted operations. -/
theorem headRows_run (ops : List (KvCacheOp size V)) (device : DeviceKvCache config size V)
    (logs : HeadLogs V) (hlogs : ∀ layer < config.layers, ∀ head < config.heads,
      device.headRows layer head = logs layer head)
    (h : ¬ (KvCacheOp.run ops device).2.cache.stream.Refused fun _ => true) :
    ∀ layer < config.layers, ∀ head < config.heads,
      (KvCacheOp.run ops device).2.headRows layer head =
        logsAfter config logs (KvCacheOp.run ops device).1 layer head := by
  induction ops generalizing device logs with
  | nil => exact hlogs
  | cons op ops ih =>
    rw [KvCacheOp.run] at h ⊢
    rcases hrun : op.step.run device with ⟨_ | _, device'⟩
    · rw [hrun] at h
      have hstep := (step_spec op device).error rfl hrun
      have heq : device' = device := by
        refine hstep.eq_or_refused.resolve_right fun hrefused => h ?_
        exact (since_run ops device').refused hrefused
      subst heq
      exact ih device' logs hlogs h
    · rw [hrun] at h
      have hstep := (step_spec op device).ok rfl hrun
      refine ih device' (op.effect config logs) (fun l hl head hhead => ?_) h
      rw [hstep.headRows_eq l hl head hhead]
      exact effect_congr op hlogs l hl head hhead

/-! ### Ranges of heads -/

private theorem orInvalid_eq_ok_iff {α : Type} {what : String} {o : Option α} {a : α} :
    orInvalid what o = .ok a ↔ o = some a := by
  cases o with
  | none => exact ⟨nofun, nofun⟩
  | some b => exact ⟨fun h => congrArg _ (Except.ok.inj h), fun h => congrArg _ (Option.some.inj h)⟩

theorem headBaseElements_eq {layer head : ℕ} (hlayer : layer < config.layers)
    (hhead : head < config.heads) :
    config.headBaseElements layer head = .ok (config.slot layer head 0 * config.headDim) := by
  have h := KvCacheConfig.appendBaseElements_eq hlayer hhead (Nat.zero_le _)
  simp only [KvCacheConfig.appendBaseElements, Except.bind_eq_ok_iff, orInvalid_eq_ok_iff,
    checkedMul_eq_some_iff, checkedAdd_eq_some_iff] at h
  obtain ⟨base, hbase, _, ⟨rfl, -⟩, hsum, -⟩ := h
  rw [Nat.zero_mul, Nat.add_zero] at hsum
  rw [hbase, hsum]

theorem slot_add (config : KvCacheConfig) (layer head position n : ℕ) :
    config.slot layer head position * config.headDim + n * config.headDim =
      config.slot layer head (position + n) * config.headDim := by
  rw [← Nat.add_mul, KvCacheConfig.slot, KvCacheConfig.slot, Nat.add_assoc]

/-- The region of a head is the list of its rows, inside the allocation. -/
structure HeadRegion (device : DeviceKvCache config size V) (rows : List (KvRow V))
    (layer head start stop : ℕ) : Prop where
  len_eq : device.cache.len layer = .ok rows.length
  headRange_eq : device.headRange layer head = .ok (start, stop)
  stop_eq : stop = start + rows.length * config.headDim
  stop_le : stop ≤ config.elementsPerSide
  keys_eq : region device.cache.keys start (stop - start) = rows.flatMap KvRow.key
  values_eq : region device.cache.values start (stop - start) = rows.flatMap KvRow.value

theorem headRegion (device : DeviceKvCache config size V) {layer head : ℕ}
    (hlayer : layer < config.layers) (hhead : head < config.heads) :
    device.HeadRegion (device.headRows layer head) layer head
      (config.slot layer head 0 * config.headDim)
      (config.slot layer head (device.cache.rowCount layer) * config.headDim) := by
  have hlt := config.elementsPerSide_lt
  have hstop := KvCacheConfig.slot_le hlayer hhead (device.cache.rowCount_le layer)
  have hadd := slot_add config layer head 0 (device.cache.rowCount layer)
  rw [Nat.zero_add] at hadd
  have hactive : device.cache.rowCount layer * config.headDim < wordLimit := by omega
  have hrows (buffer : List V) :
      ((List.range (device.cache.rowCount layer)).flatMap fun position =>
        region buffer (config.slot layer head position * config.headDim) config.headDim) =
      region buffer (config.slot layer head 0 * config.headDim)
        (config.slot layer head (device.cache.rowCount layer) * config.headDim -
          config.slot layer head 0 * config.headDim) := by
    rw [← hadd, Nat.add_sub_cancel_left, ← flatMap_region]
    simp only [slot_add, Nat.zero_add]
  refine ⟨?_, ?_, ?_, hstop, ?_, ?_⟩
  · rw [length_headRows, device.cache.len_eq hlayer]
  · simp only [headRange, device.cache.len_eq hlayer, Except.ok_bind, Nat.not_le.2 hhead,
      ↓reduceIte, headBaseElements_eq hlayer hhead, checkedMul_of_lt hactive, orInvalid, hadd,
      checkedAdd_of_lt (a := config.slot layer head 0 * config.headDim)
        (b := device.cache.rowCount layer * config.headDim) (by omega)]
    rfl
  · rw [length_headRows, hadd]
  · rw [← hrows, headRows, List.flatMap_map]
  · rw [← hrows, headRows, List.flatMap_map]

end DeviceKvCache

end NNIS
