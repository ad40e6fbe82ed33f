import NNIS.Rt.KvCache

/-!
# The active rows of the cache

What the operations of the cache do to the active rows of its layers: a truncation keeps the first
ones, an append adds the packed rows of its sources to one layer. An append that fails, at
whichever call, changes no active row of any layer.

## Main definitions

* `packedRows` — the rows of packed `[heads][tokens][head_dim]` tensors.
* `Copied` — the cache allocation after the copies of some heads.

## Main results

* `KvCache.truncate_spec`, `KvCache.appendLayerAsync_spec`.
-/

set_option autoImplicit false

namespace NNIS

variable {config : KvCacheConfig} {V : Type}

/-! ### Packed rows -/

/-- The rows of packed `[heads][tokens][head_dim]` tensors. -/
def packedRows (config : KvCacheConfig) (tokens : ℕ) (keys values : List V) : List (KvRow V) :=
  (List.range tokens).map fun token =>
    { key := (List.range config.heads).flatMap fun head =>
        region keys ((head * tokens + token) * config.headDim) config.headDim
      value := (List.range config.heads).flatMap fun head =>
        region values ((head * tokens + token) * config.headDim) config.headDim }

/-- One packed row is the whole of its tensors. -/
theorem packedRows_one {keys values : List V} (hk : keys.length = config.heads * config.headDim)
    (hv : values.length = config.heads * config.headDim) :
    packedRows config 1 keys values = [⟨keys, values⟩] := by
  have hrow {buffer : List V} (h : buffer.length = config.heads * config.headDim) :
      ((List.range config.heads).flatMap fun head =>
        region buffer ((head * 1 + 0) * config.headDim) config.headDim) = buffer := by
    have hblocks := flatMap_region buffer 0 config.headDim config.heads
    simp only [Nat.zero_add, ← h, region_zero] at hblocks
    simp only [Nat.mul_one, Nat.add_zero, hblocks]
  simp only [packedRows, List.range_one, List.map_cons, List.map_nil, hrow hk, hrow hv]

/-! ### The copies of an append -/

/-- The allocation after the copies of the first `heads` heads of an append: their slots in the
appended positions hold the source, every other slot is as before. -/
structure Copied (config : KvCacheConfig) (layer start tokens : ℕ) (source before : List V)
    (heads : ℕ) (after : List V) : Prop where
  length_eq : after.length = config.elementsPerSide
  read : ∀ l h p, h < config.heads → p < config.capacity →
    region after (config.slot l h p * config.headDim) config.headDim =
      if l = layer ∧ h < heads ∧ start ≤ p ∧ p < start + tokens then
        region source ((h * tokens + (p - start)) * config.headDim) config.headDim
      else region before (config.slot l h p * config.headDim) config.headDim

namespace Copied

variable {layer start tokens heads : ℕ} {source before after : List V}

theorem zero (h : before.length = config.elementsPerSide) :
    Copied config layer start tokens source before 0 before where
  length_eq := h
  read l h p _ _ := by
    rw [if_neg]
    rintro ⟨-, h₀, -⟩
    exact Nat.not_lt_zero _ h₀

/-- An append of no tokens copies nothing. -/
theorem of_tokens_eq_zero (h : before.length = config.elementsPerSide) (ht : tokens = 0) :
    Copied config layer start tokens source before heads before where
  length_eq := h
  read l h p _ _ := by
    rw [if_neg]
    rintro ⟨-, -, h₁, h₂⟩
    omega

/-- The copy of one more head. -/
theorem succ (hlayer : layer < config.layers) (hheads : heads < config.heads)
    (hlast : start + tokens ≤ config.capacity)
    (hsource : source.length = config.heads * tokens * config.headDim)
    (h : Copied config layer start tokens source before heads after) :
    Copied config layer start tokens source before (heads + 1)
      (writeRegion after (config.slot layer heads start * config.headDim)
        (region source (heads * (tokens * config.headDim)) (tokens * config.headDim))) := by
  have hwithin : heads * (tokens * config.headDim) + tokens * config.headDim ≤ source.length := by
    rw [hsource, Nat.mul_assoc, ← Nat.succ_mul]
    exact Nat.mul_le_mul_right _ hheads
  have hlen := length_region hwithin
  have hlastSlot : config.slot layer heads start * config.headDim + tokens * config.headDim =
      config.slot layer heads (start + tokens) * config.headDim := by
    rw [← Nat.add_mul, KvCacheConfig.slot, KvCacheConfig.slot, Nat.add_assoc]
  have hfit : config.slot layer heads start * config.headDim +
      (region source (heads * (tokens * config.headDim)) (tokens * config.headDim)).length ≤
        after.length := by
    rw [hlen, hlastSlot, h.length_eq]
    exact KvCacheConfig.slot_le hlayer hheads hlast
  refine ⟨by rw [length_writeRegion, h.length_eq], fun l hd p hhd hp => ?_⟩
  by_cases hin : l = layer ∧ hd = heads ∧ start ≤ p ∧ p < start + tokens
  · -- A slot of the head that has just been copied.
    obtain ⟨rfl, rfl, hlow, hhigh⟩ := hin
    rw [if_pos ⟨rfl, Nat.lt_succ_self hd, hlow, hhigh⟩]
    have hoff : config.slot l hd p * config.headDim - config.slot l hd start * config.headDim =
        (p - start) * config.headDim := by
      rw [← Nat.sub_mul, KvCacheConfig.slot, KvCacheConfig.slot, Nat.add_sub_add_left]
    have hslot : config.slot l hd start ≤ config.slot l hd p := Nat.add_le_add_left hlow _
    have hinner : (p - start) * config.headDim + config.headDim ≤ tokens * config.headDim := by
      rw [← Nat.succ_mul]
      exact Nat.mul_le_mul_right _ (by omega)
    have hsucc : config.slot l hd p * config.headDim + config.headDim ≤
        config.slot l hd start * config.headDim + tokens * config.headDim := by
      rw [hlastSlot, ← Nat.succ_mul]
      refine Nat.mul_le_mul_right _ ?_
      simp only [KvCacheConfig.slot]
      omega
    rw [region_writeRegion_of_within hfit (Nat.mul_le_mul_right _ hslot)
      (by rw [hlen]; exact hsucc), hoff, region_region _ _ _ hinner]
    congr 1
    ring
  · have hcond : (l = layer ∧ hd < heads + 1 ∧ start ≤ p ∧ p < start + tokens) ↔
        (l = layer ∧ hd < heads ∧ start ≤ p ∧ p < start + tokens) := by
      constructor
      · rintro ⟨hl, hlt, hlow, hhigh⟩
        refine ⟨hl, ?_, hlow, hhigh⟩
        have : hd ≠ heads := fun he => hin ⟨hl, he, hlow, hhigh⟩
        omega
      · rintro ⟨hl, hlt, hlow, hhigh⟩
        exact ⟨hl, by omega, hlow, hhigh⟩
    rw [if_congr hcond rfl rfl, ← h.read l hd p hhd hp]
    rcases KvCacheConfig.slot_lt_or_le hhd hheads hp hlast hin with hlt | hle
    · refine region_writeRegion_of_before ?_
      rw [← Nat.succ_mul]
      exact Nat.mul_le_mul_right _ hlt
    · refine region_writeRegion_of_after ?_
      rw [hlen, hlastSlot]
      exact Nat.mul_le_mul_right _ hle

end Copied

namespace KvCache

/-! ### Lengths -/

variable (cache : KvCache config V)

@[simp] theorem length_rows (layer : ℕ) : (cache.rows layer).length = cache.rowCount layer := by
  rw [rows, List.length_map, List.length_range]

theorem len_eq {layer : ℕ} (h : layer < config.layers) :
    cache.len layer = .ok (cache.rowCount layer) := by
  have hl : layer < cache.lengths.length := cache.length_lengths ▸ h
  rw [len, rowCount, List.getElem?_eq_getElem hl, Option.getD_some]

theorem rowCount_le (layer : ℕ) : cache.rowCount layer ≤ config.capacity := by
  unfold rowCount
  cases h : cache.lengths[layer]? with
  | none => exact Nat.zero_le _
  | some n => exact cache.lengths_le n (List.mem_of_getElem? h)

theorem rowCount_of_le {layer : ℕ} (h : config.layers ≤ layer) : cache.rowCount layer = 0 := by
  rw [rowCount, List.getElem?_eq_none (cache.length_lengths ▸ h), Option.getD_none]

theorem rows_of_le {layer : ℕ} (h : config.layers ≤ layer) : cache.rows layer = [] := by
  rw [rows, cache.rowCount_of_le h, List.range_zero, List.map_nil]

theorem forall_lengths_iff {n : ℕ} :
    (∀ m ∈ cache.lengths, n ≤ m) ↔ ∀ l < config.layers, n ≤ cache.rowCount l := by
  constructor
  · intro h l hl
    have hl' : l < cache.lengths.length := cache.length_lengths ▸ hl
    rw [rowCount, List.getElem?_eq_getElem hl', Option.getD_some]
    exact h _ (List.getElem_mem hl')
  · intro h m hm
    obtain ⟨l, hl, rfl⟩ := List.getElem_of_mem hm
    have := h l (cache.length_lengths ▸ hl)
    rwa [rowCount, List.getElem?_eq_getElem hl, Option.getD_some] at this

theorem rowCount_setLength {layer n : ℕ} (hlayer : layer < config.layers)
    (h : n ≤ config.capacity) (l : ℕ) :
    (cache.setLength layer n h).rowCount l = if l = layer then n else cache.rowCount l := by
  have hl : layer < cache.lengths.length := cache.length_lengths ▸ hlayer
  show (cache.lengths.set layer n)[l]?.getD 0 = _
  by_cases he : l = layer
  · rw [he, List.getElem?_set_self hl, if_pos rfl, Option.getD_some]
  · rw [List.getElem?_set_ne (Ne.symm he), if_neg he, rowCount]

theorem rowCount_fillLengths {n : ℕ} (h : n ≤ config.capacity) (l : ℕ) :
    (cache.fillLengths n h).rowCount l = if l < config.layers then n else 0 := by
  show (List.replicate config.layers n)[l]?.getD 0 = _
  rw [List.getElem?_replicate]
  split_ifs <;> rfl

/-- Giving every layer a length it has reached keeps its first rows. -/
theorem rows_fillLengths {n : ℕ} (h : n ≤ config.capacity)
    (hle : ∀ l < config.layers, n ≤ cache.rowCount l) (l : ℕ) :
    (cache.fillLengths n h).rows l = (cache.rows l).take n := by
  rw [rows, rows, rowCount_fillLengths, ← List.map_take, List.take_range]
  split_ifs with hl
  · rw [Nat.min_eq_left (hle l hl)]
    rfl
  · rw [cache.rowCount_of_le (Nat.le_of_not_lt hl), Nat.min_zero]
    rfl

/-! ### Truncation -/

/-- A truncation keeps the first rows of every layer, or is rejected because some layer holds
fewer. -/
theorem truncate_spec (c₀ : KvCache config V) (n : ℕ) :
    Fallible.Spec (fun c => c = c₀) (truncate n)
      (fun _ c => c.stream = c₀.stream ∧ (∀ l, c.rows l = (c₀.rows l).take n) ∧
        ∀ l < config.layers, n ≤ c₀.rowCount l)
      fun _ c => c = c₀ ∧ ∃ l < config.layers, c₀.rowCount l < n := by
  rintro c rfl
  simp only [truncate, Fallible.run_bind, Fallible.run_get]
  split
  case h_1 layer current h =>
    refine ⟨rfl, ?_⟩
    by_contra hno
    push Not at hno
    rw [firstShorter_eq_none_iff.2 (c.forall_lengths_iff.2 hno)] at h
    cases h
  case h_2 h =>
    have hle := c.forall_lengths_iff.1 (firstShorter_eq_none_iff.1 h)
    exact ⟨rfl, c.rows_fillLengths _ hle, hle⟩

/-! ### Appends -/

/-- The rows of a layer are read off its allocations. -/
theorem rows_congr {c c' : KvCache config V} {l : ℕ} (hcount : c.rowCount l = c'.rowCount l)
    (hkeys : ∀ h p, h < config.heads → p < c'.rowCount l →
      region c.keys (config.slot l h p * config.headDim) config.headDim =
        region c'.keys (config.slot l h p * config.headDim) config.headDim)
    (hvalues : ∀ h p, h < config.heads → p < c'.rowCount l →
      region c.values (config.slot l h p * config.headDim) config.headDim =
        region c'.values (config.slot l h p * config.headDim) config.headDim) :
    c.rows l = c'.rows l := by
  rw [rows, rows, hcount]
  refine List.map_congr_left fun p hp => ?_
  have hp' := List.mem_range.1 hp
  refine KvRow.ext ?_ ?_
  · exact List.flatMap_congr fun h hh => hkeys h p (List.mem_range.1 hh) hp'
  · exact List.flatMap_congr fun h hh => hvalues h p (List.mem_range.1 hh) hp'

/-- The call sites of an append to a layer. -/
def appendSite (layer : ℕ) : CallSite → Bool
  | .prepareAppend l => l = layer
  | .appendKey l _ => l = layer
  | .appendValue l _ => l = layer
  | .recordAppend l => l = layer
  | _ => false

/-- The calls of an append to a layer: its own, and the wait after a refused one. -/
def appendCall (layer : ℕ) (r : CallRecord) : Prop :=
  appendSite layer r.1 = true ∨ r.1 = .synchronize .drain

theorem call_spec (c₀ : KvCache config V) (site : CallSite) {kind : CallRecord → Prop}
    (hkind : ∀ ok, kind (site, ok)) :
    Fallible.Spec (fun c => c = c₀) (call site)
      (fun _ c => ∃ s, c = c₀.withStream s ∧ Stream.Since kind c₀.stream s)
      fun _ c => ∃ s, c = c₀.withStream s ∧ Stream.Since kind c₀.stream s ∧
        (site, false) ∈ s.history ∧ ¬ s.Accepting := by
  refine ((Stream.call_spec c₀.stream site hkind).zoom c₀).conseq (fun c hc => ⟨hc, hc ▸ rfl⟩) ?_ ?_
  · rintro - c ⟨s, ⟨hs, -⟩, rfl⟩
    exact ⟨s, rfl, hs⟩
  · rintro - c ⟨s, ⟨hs, hh, hna⟩, rfl⟩
    exact ⟨s, rfl, hs, hh ▸ List.mem_cons_self, hna⟩

/-- A call is accepted, or it is refused and returned after a wait. -/
theorem callOrDrain_spec (c₀ : KvCache config V) (site : CallSite) {kind : CallRecord → Prop}
    (hkind : ∀ ok, kind (site, ok)) (hdrain : ∀ ok, kind (.synchronize .drain, ok)) :
    Fallible.Spec (fun c => c = c₀) (callOrDrain site)
      (fun _ c => ∃ s, c = c₀.withStream s ∧ Stream.Since kind c₀.stream s)
      fun _ c => ∃ s, c = c₀.withStream s ∧ Stream.Since kind c₀.stream s ∧
        (site, false) ∈ s.history ∧ ¬ s.Accepting := by
  refine Fallible.Spec.bind (R := fun r c => ∃ s, c = c₀.withStream s ∧
    Stream.Since kind c₀.stream s ∧
      ∀ e, r = .error e → (site, false) ∈ s.history ∧ ¬ s.Accepting) ?_ fun r => ?_
  · refine Fallible.Spec.attempt ((c₀.call_spec site hkind).conseq (fun _ hc => hc) ?_ ?_)
    · rintro - c ⟨s, rfl, hs⟩
      exact ⟨s, rfl, hs, fun _ he => by cases he⟩
    · rintro e c ⟨s, rfl, hs, hmem, hna⟩
      exact ⟨s, rfl, hs, fun _ _ => ⟨hmem, hna⟩⟩
  · cases r with
    | ok _ => exact Fallible.Spec.pure _ fun c ⟨s, hc, hs, _⟩ => ⟨s, hc, hs⟩
    | error e =>
      refine Fallible.Spec.of_forall fun c₁ ⟨s, hc₁, hs, hr⟩ => ?_
      obtain ⟨hmem, hna⟩ := hr e rfl
      subst hc₁
      refine Fallible.Spec.bind (R := fun _ c => ∃ s', c = c₀.withStream s' ∧
        Stream.Since kind s s') ?_ fun _ => Fallible.Spec.fail _ ?_
      · refine Fallible.Spec.attempt (((c₀.withStream s).call_spec _ hdrain).conseq
          (fun _ hc => hc) ?_ ?_)
        · rintro - c ⟨s', rfl, hs'⟩
          exact ⟨s', rfl, hs'⟩
        · rintro - c ⟨s', rfl, hs', -⟩
          exact ⟨s', rfl, hs'⟩
      · rintro c ⟨s', rfl, hs'⟩
        exact ⟨s', rfl, hs.trans hs', hs'.mem_history hmem, hs'.not_accepting hna⟩

/-- A call of an append is accepted, or it is refused and returned after a wait. -/
theorem appendCall_spec (c₀ : KvCache config V) {layer : ℕ} {site : CallSite}
    (hsite : appendSite layer site = true) :
    Fallible.Spec (fun c => c = c₀) (callOrDrain site)
      (fun _ c => ∃ s, c = c₀.withStream s ∧ Stream.Since (appendCall layer) c₀.stream s)
      fun _ c => ∃ s, c = c₀.withStream s ∧ Stream.Since (appendCall layer) c₀.stream s ∧
        s.Refused (appendSite layer) ∧ ¬ s.Accepting := by
  have hkind : ∀ ok, appendCall layer (site, ok) := fun _ => Or.inl hsite
  have hdrain : ∀ ok, appendCall layer (.synchronize .drain, ok) := fun _ => Or.inr rfl
  refine (c₀.callOrDrain_spec site hkind hdrain).conseq (fun _ hc => hc) (fun _ _ hc => hc) ?_
  rintro - c ⟨s, rfl, hs, hmem, hna⟩
  exact ⟨s, rfl, hs, ⟨site, hsite, hmem⟩, hna⟩

/-- The outcome of an append of some rows to a layer. -/
structure Appended (c₀ : KvCache config V) (layer : ℕ) (new : List (KvRow V))
    (c : KvCache config V) : Prop where
  since : Stream.Since (appendCall layer) c₀.stream c.stream
  rows_eq : ∀ l, c.rows l = if l = layer then c₀.rows l ++ new else c₀.rows l

/-- The outcome of a failed append to a layer: one of its calls has been refused, and every active
row is as before. -/
structure AppendFailed (c₀ : KvCache config V) (layer : ℕ) (c : KvCache config V) : Prop where
  since : Stream.Since (appendCall layer) c₀.stream c.stream
  rows_eq : ∀ l, c.rows l = c₀.rows l
  refused : c.stream.Refused (appendSite layer)
  not_accepting : ¬ c.stream.Accepting

/-- The cache in the middle of an append: the copies of some heads are in the allocations, the
lengths are as before. -/
structure Appending (c₀ : KvCache config V) (layer tokens : ℕ) (keys values : List V)
    (keyHeads valueHeads : ℕ) (c : KvCache config V) : Prop where
  since : Stream.Since (appendCall layer) c₀.stream c.stream
  lengths_eq : c.lengths = c₀.lengths
  keys_copied : Copied config layer (c₀.rowCount layer) tokens keys c₀.keys keyHeads c.keys
  values_copied : Copied config layer (c₀.rowCount layer) tokens values c₀.values
    valueHeads c.values

namespace Appending

variable {c₀ c : KvCache config V} {layer tokens keyHeads valueHeads : ℕ} {keys values : List V}

theorem withStream (h : Appending c₀ layer tokens keys values keyHeads valueHeads c) {s : Stream}
    (hs : Stream.Since (appendCall layer) c.stream s) :
    Appending c₀ layer tokens keys values keyHeads valueHeads (c.withStream s) :=
  ⟨h.since.trans hs, h.lengths_eq, h.keys_copied, h.values_copied⟩

/-- The active rows are as before. -/
theorem rows_eq (h : Appending c₀ layer tokens keys values keyHeads valueHeads c) (l : ℕ) :
    c.rows l = c₀.rows l := by
  have hcount : c.rowCount l = c₀.rowCount l := by rw [rowCount, rowCount, h.lengths_eq]
  refine rows_congr hcount (fun hd p hhd hp => ?_) fun hd p hhd hp => ?_
  · rw [h.keys_copied.read l hd p hhd (hp.trans_le (c₀.rowCount_le l)), if_neg]
    rintro ⟨rfl, -, hlow, -⟩
    omega
  · rw [h.values_copied.read l hd p hhd (hp.trans_le (c₀.rowCount_le l)), if_neg]
    rintro ⟨rfl, -, hlow, -⟩
    omega

/-- A refused call leaves the append in the middle. -/
theorem failed (h : Appending c₀ layer tokens keys values keyHeads valueHeads c)
    (hr : c.stream.Refused (appendSite layer) ∧ ¬ c.stream.Accepting) :
    AppendFailed c₀ layer c :=
  ⟨h.since, h.rows_eq, hr.1, hr.2⟩

/-- With all heads copied, moving the length forward adds the packed rows. -/
theorem rows_setLength (h : Appending c₀ layer tokens keys values config.heads config.heads c)
    (hlayer : layer < config.layers) (hlast : c₀.rowCount layer + tokens ≤ config.capacity)
    (l : ℕ) :
    (c.setLength layer (c₀.rowCount layer + tokens) hlast).rows l =
      if l = layer then c₀.rows l ++ packedRows config tokens keys values else c₀.rows l := by
  by_cases hl : l = layer
  · subst hl
    rw [if_pos rfl, ← h.rows_eq l, rows, rows, rowCount_setLength c hlayer hlast, if_pos rfl,
      List.range_add, List.map_append]
    have hcount : c.rowCount l = c₀.rowCount l := by rw [rowCount, rowCount, h.lengths_eq]
    rw [hcount, packedRows, List.map_map]
    refine congrArg _ (List.map_congr_left fun token ht => ?_)
    have ht' := List.mem_range.1 ht
    have hread {p : ℕ} (hp : p = c₀.rowCount l + token) : c₀.rowCount l ≤ p ∧
        p < c₀.rowCount l + tokens ∧ p - c₀.rowCount l = token ∧ p < config.capacity := by
      omega
    obtain ⟨hlow, hhigh, hsub, hcap⟩ := hread rfl
    refine KvRow.ext ?_ ?_
    · refine List.flatMap_congr fun hd hhd => ?_
      have hhd' := List.mem_range.1 hhd
      show region c.keys _ _ = _
      rw [h.keys_copied.read l hd _ hhd' hcap, if_pos ⟨rfl, hhd', hlow, hhigh⟩, hsub]
    · refine List.flatMap_congr fun hd hhd => ?_
      have hhd' := List.mem_range.1 hhd
      show region c.values _ _ = _
      rw [h.values_copied.read l hd _ hhd' hcap, if_pos ⟨rfl, hhd', hlow, hhigh⟩, hsub]
  · rw [if_neg hl, ← h.rows_eq l]
    refine rows_congr ?_ (fun _ _ _ _ => rfl) fun _ _ _ _ => rfl
    rw [rowCount_setLength c hlayer hlast, if_neg hl]

end Appending

theorem appendElements_le {tokens : ℕ} (h : tokens ≤ config.capacity) :
    config.heads * tokens * config.headDim ≤ config.elementsPerSide := by
  refine Nat.mul_le_mul_right _ ?_
  calc config.heads * tokens ≤ config.heads * config.capacity := Nat.mul_le_mul_left _ h
    _ ≤ config.layers * (config.heads * config.capacity) :=
        Nat.le_mul_of_pos_left _ config.layers_pos
    _ = config.layers * config.heads * config.capacity := (Nat.mul_assoc _ _ _).symm

/-- A region inside an allocation passes its bound check. -/
theorem checkedRegion_eq {elements first size : ℕ} (overflow : String) (outside : ℕ → String)
    (hfit : first + size ≤ elements) (helements : elements ≤ config.elementsPerSide) :
    checkedRegion overflow outside elements first size = .ok first := by
  have hlt := config.elementsPerSide_lt
  rw [checkedRegion, checkedAdd_of_lt (by omega)]
  show (if elements < first + size then _ else _) = _
  rw [if_neg (by omega)]
  rfl

/-- The transfer plan of an append that fits. -/
theorem planHeadCopy_eq {layer start tokens head : ℕ} (hlayer : layer < config.layers)
    (hhead : head < config.heads) (hlast : start + tokens ≤ config.capacity) :
    planHeadCopy config layer start (tokens * config.headDim)
        (config.heads * tokens * config.headDim) head =
      .ok ⟨head, head * (tokens * config.headDim),
        config.slot layer head start * config.headDim⟩ := by
  have hlt := config.elementsPerSide_lt
  have hsize : config.heads * tokens * config.headDim ≤ config.elementsPerSide :=
    appendElements_le (by omega)
  have hsource : head * (tokens * config.headDim) + tokens * config.headDim ≤
      config.heads * tokens * config.headDim := by
    rw [Nat.mul_assoc, ← Nat.succ_mul]
    exact Nat.mul_le_mul_right _ hhead
  have hdestination : config.slot layer head start * config.headDim + tokens * config.headDim ≤
      config.elementsPerSide := by
    rw [← Nat.add_mul, KvCacheConfig.slot, Nat.add_assoc]
    exact KvCacheConfig.slot_le hlayer hhead hlast
  rw [planHeadCopy, checkedMul_of_lt (by omega),
    KvCacheConfig.appendBaseElements_eq hlayer hhead (by omega)]
  show (do
    let source ← deviceRegion _ _ _
    let destination ← deviceRegion _ _ _
    return (⟨head, source, destination⟩ : KvHeadCopy)) = _
  rw [deviceRegion, checkedRegion_eq _ _ hsource hsize, deviceRegion,
    checkedRegion_eq _ _ hdestination le_rfl]
  rfl

/-- The copies planned for an append. -/
def plannedCopies (config : KvCacheConfig) (layer start tokens : ℕ) : List KvHeadCopy :=
  (List.range config.heads).map fun head =>
    ⟨head, head * (tokens * config.headDim), config.slot layer head start * config.headDim⟩

/-- The copies are made head by head; a refused one leaves the append in the middle. -/
theorem submitCopies_spec (c₀ : KvCache config V) {layer tokens : ℕ} {keys values : List V}
    (hlayer : layer < config.layers) (hlast : c₀.rowCount layer + tokens ≤ config.capacity)
    (hkeys : keys.length = config.heads * tokens * config.headDim)
    (hvalues : values.length = config.heads * tokens * config.headDim) :
    Fallible.Spec (fun c => c = c₀)
      (submitCopies layer (tokens * config.headDim) keys values
        (plannedCopies config layer (c₀.rowCount layer) tokens))
      (fun _ c => Appending c₀ layer tokens keys values config.heads config.heads c)
      fun _ => AppendFailed c₀ layer := by
  have hsite : appendSite layer (.prepareAppend layer) = true := decide_eq_true rfl
  have hprepare : ∀ ok, appendCall layer (.prepareAppend layer, ok) := fun _ => Or.inl hsite
  have hkey (i : ℕ) : appendSite layer (.appendKey layer i) = true := decide_eq_true rfl
  have hvalue (i : ℕ) : appendSite layer (.appendValue layer i) = true := decide_eq_true rfl
  unfold submitCopies
  split_ifs with hzero
  · refine Fallible.Spec.pure _ ?_
    rintro c rfl
    have htokens : tokens = 0 := by
      rcases Nat.mul_eq_zero.1 hzero with h | h
      · exact h
      · exact absurd h config.headDim_pos.ne'
    exact ⟨Stream.Since.refl _ _, rfl, .of_tokens_eq_zero c.length_keys htokens,
      .of_tokens_eq_zero c.length_values htokens⟩
  have hstart : Appending c₀ layer tokens keys values 0 0 c₀ :=
    ⟨Stream.Since.refl _ _, rfl, .zero c₀.length_keys, .zero c₀.length_values⟩
  -- Each round copies the key and the value of the next head.
  let Copies (rest : List KvHeadCopy) (c : KvCache config V) : Prop := ∃ i ≤ config.heads,
    rest = (plannedCopies config layer (c₀.rowCount layer) tokens).drop i ∧
      Appending c₀ layer tokens keys values i i c
  refine Fallible.Spec.bind (R := fun _ => Copies _)
    ((c₀.call_spec _ hprepare).conseq (fun _ hc => hc) ?_ ?_) fun _ =>
      (Fallible.Spec.forEach Copies _ ?_).conseq (fun _ hc => hc) ?_ fun _ _ he => he
  · rintro - c ⟨s, rfl, hs⟩
    exact ⟨0, Nat.zero_le _, rfl, hstart.withStream hs⟩
  · rintro - c ⟨s, rfl, hs, hmem, hna⟩
    have hc := hstart.withStream hs
    exact ⟨hc.since, hc.rows_eq, ⟨_, hsite, hmem⟩, hna⟩
  · intro copy rest
    refine Fallible.Spec.of_forall fun c₁ ⟨i, hi, hrest, hc₁⟩ => ?_
    have hlen : (plannedCopies config layer (c₀.rowCount layer) tokens).length = config.heads := by
      rw [plannedCopies, List.length_map, List.length_range]
    have hi' : i < config.heads := by
      by_contra hno
      rw [List.drop_of_length_le (by omega)] at hrest
      cases hrest
    rw [List.drop_eq_getElem_cons (hlen ▸ hi')] at hrest
    obtain ⟨hcopy, htail⟩ := List.cons.inj hrest
    have hcopy : copy = ⟨i, i * (tokens * config.headDim),
        config.slot layer i (c₀.rowCount layer) * config.headDim⟩ := by
      rw [hcopy]
      simp only [plannedCopies, List.getElem_map, List.getElem_range]
    subst hcopy
    refine Fallible.Spec.bind ((appendCall_spec c₁ (hkey i)).conseq
      (fun _ hc => hc) (fun _ _ hc => hc) ?_) fun _ => Fallible.Spec.bind
      (R := fun _ => Appending c₀ layer tokens keys values (i + 1) i)
      (Fallible.Spec.modify _ ?_) fun _ => Fallible.Spec.of_forall fun c₂ hc₂ =>
      Fallible.Spec.bind ((appendCall_spec c₂ (hvalue i)).conseq
        (fun _ hc => hc) (fun _ _ hc => hc) ?_) fun _ => Fallible.Spec.modify _ ?_
    · rintro - c ⟨s, rfl, hs, hr⟩
      exact (hc₁.withStream hs).failed hr
    · rintro c ⟨s, rfl, hs⟩
      have hc := hc₁.withStream hs
      exact ⟨hc.since, hc.lengths_eq, hc.keys_copied.succ hlayer hi' hlast hkeys, hc.values_copied⟩
    · rintro - c ⟨s, rfl, hs, hr⟩
      exact (hc₂.withStream hs).failed hr
    · rintro c ⟨s, rfl, hs⟩
      have hc := hc₂.withStream hs
      exact ⟨i + 1, hi', htail, hc.since, hc.lengths_eq, hc.keys_copied,
        hc.values_copied.succ hlayer hi' hlast hvalues⟩
  · rintro - c ⟨i, hi, hrest, hc⟩
    have hlen : config.heads ≤ i := by
      have h := congrArg List.length hrest
      rw [List.length_nil, List.length_drop, plannedCopies, List.length_map,
        List.length_range] at h
      omega
    rwa [Nat.le_antisymm hi hlen] at hc

/-- The sizes of an append that fits do not overflow. -/
theorem append_sizes_lt (config : KvCacheConfig) {tokens : ℕ} (h : tokens ≤ config.capacity) :
    tokens < wordLimit ∧ config.heads * tokens < wordLimit ∧
      config.heads * tokens * config.headDim < wordLimit ∧ tokens * config.headDim < wordLimit := by
  have hsize : config.heads * tokens * config.headDim < wordLimit :=
    (appendElements_le h).trans_lt config.elementsPerSide_lt
  have hheads : config.heads * tokens < wordLimit :=
    (Nat.le_mul_of_pos_right _ config.headDim_pos).trans_lt hsize
  have hhead : tokens * config.headDim < wordLimit := by
    refine lt_of_le_of_lt ?_ hsize
    rw [Nat.mul_assoc]
    exact Nat.le_mul_of_pos_left _ config.heads_pos
  exact ⟨(Nat.le_mul_of_pos_left _ config.heads_pos).trans_lt hheads, hheads, hsize, hhead⟩

theorem capacity_lt (config : KvCacheConfig) : config.capacity < wordLimit :=
  (append_sizes_lt config le_rfl).1

/-- The host checks of an append that fits pass; the copies, the event and the new length remain. -/
theorem run_appendLayerAsync (c₀ : KvCache config V) {layer tokens : ℕ} {keys values : List V}
    (hlayer : layer < config.layers) (hlast : c₀.rowCount layer + tokens ≤ config.capacity)
    (hkeys : keys.length = config.heads * tokens * config.headDim)
    (hvalues : values.length = config.heads * tokens * config.headDim) :
    (appendLayerAsync layer keys values tokens).run c₀ =
      (submitCopies layer (tokens * config.headDim) keys values
          (plannedCopies config layer (c₀.rowCount layer) tokens) >>= fun _ =>
        callOrDrain (.recordAppend layer) >>= fun _ =>
          Fallible.modify (setLength layer (c₀.rowCount layer + tokens) hlast)).run c₀ := by
  have hcapacity := capacity_lt config
  have htokens : tokens ≤ config.capacity := by omega
  obtain ⟨-, hheads, hsize, hhead⟩ := append_sizes_lt config htokens
  have hplan : (List.range config.heads).mapM (planHeadCopy config layer (c₀.rowCount layer)
      (tokens * config.headDim) (config.heads * tokens * config.headDim)) =
        .ok (plannedCopies config layer (c₀.rowCount layer) tokens) :=
    mapM_eq_ok fun head hh => planHeadCopy_eq hlayer (List.mem_range.1 hh) hlast
  have hadd : checkedAdd (c₀.rowCount layer) tokens = some (c₀.rowCount layer + tokens) :=
    checkedAdd_of_lt (by omega)
  simp only [appendLayerAsync, Fallible.run_bind, Fallible.run_get, Fallible.run_ofExcept,
    len_eq c₀ hlayer, hadd, orInvalid, hlast, ↓reduceDIte, checkedMul_of_lt hheads,
    checkedMul_of_lt hsize, Option.bind_eq_bind, Option.bind_some, hkeys, hvalues,
    ne_eq, not_true_eq_false, or_self, ↓reduceIte, checkedMul_of_lt hhead, hplan]

/-- An append that fits copies its rows into its layer and moves the length forward, or fails and
changes no active row. -/
theorem appendLayerAsync_appending (c₀ : KvCache config V) {layer tokens : ℕ} {keys values : List V}
    (hlayer : layer < config.layers) (hlast : c₀.rowCount layer + tokens ≤ config.capacity)
    (hkeys : keys.length = config.heads * tokens * config.headDim)
    (hvalues : values.length = config.heads * tokens * config.headDim) :
    Fallible.Spec (fun c => c = c₀) (appendLayerAsync layer keys values tokens)
      (fun _ c => ∃ c₁, Appending c₀ layer tokens keys values config.heads config.heads c₁ ∧
        c = c₁.setLength layer (c₀.rowCount layer + tokens) hlast)
      fun _ => AppendFailed c₀ layer := by
  have hsite : appendSite layer (.recordAppend layer) = true := decide_eq_true rfl
  have hcommit (c₁ : KvCache config V)
      (hc₁ : Appending c₀ layer tokens keys values config.heads config.heads c₁) :
      Fallible.Spec (fun c => c = c₁)
        (callOrDrain (.recordAppend layer) >>= fun _ =>
          Fallible.modify (setLength layer (c₀.rowCount layer + tokens) hlast))
        (fun _ c => ∃ c₁, Appending c₀ layer tokens keys values config.heads config.heads c₁ ∧
          c = c₁.setLength layer (c₀.rowCount layer + tokens) hlast)
        fun _ => AppendFailed c₀ layer := by
    refine Fallible.Spec.bind ((appendCall_spec c₁ hsite).conseq (fun _ hc => hc)
      (fun _ _ hc => hc) ?_) fun _ => Fallible.Spec.modify _ ?_
    · rintro - c ⟨s, rfl, hs, hr⟩
      exact (hc₁.withStream hs).failed hr
    · rintro c ⟨s, rfl, hs⟩
      exact ⟨_, hc₁.withStream hs, rfl⟩
  rintro c rfl
  rw [c.run_appendLayerAsync hlayer hlast hkeys hvalues]
  exact (submitCopies_spec c hlayer hlast hkeys hvalues).bind
    (fun _ => Fallible.Spec.of_forall hcommit) c rfl

/-- An append that fits adds its packed rows to its layer, or fails and changes no active row. -/
theorem appendLayerAsync_spec (c₀ : KvCache config V) {layer tokens : ℕ} {keys values : List V}
    (hlayer : layer < config.layers) (hlast : c₀.rowCount layer + tokens ≤ config.capacity)
    (hkeys : keys.length = config.heads * tokens * config.headDim)
    (hvalues : values.length = config.heads * tokens * config.headDim) :
    Fallible.Spec (fun c => c = c₀) (appendLayerAsync layer keys values tokens)
      (fun _ => Appended c₀ layer (packedRows config tokens keys values))
      fun _ => AppendFailed c₀ layer := by
  refine (c₀.appendLayerAsync_appending hlayer hlast hkeys hvalues).conseq (fun _ hc => hc) ?_
    fun _ _ hc => hc
  rintro - c ⟨c₁, hc₁, rfl⟩
  exact ⟨hc₁.since, hc₁.rows_setLength hlayer hlast⟩

/-- An append that does not fit is rejected before any work. -/
theorem appendLayerAsync_of_full (c₀ : KvCache config V) {layer tokens : ℕ} (keys values : List V)
    (hlayer : layer < config.layers) (hfull : config.capacity < c₀.rowCount layer + tokens) :
    ∃ e, (appendLayerAsync layer keys values tokens).run c₀ = (.error e, c₀) := by
  simp only [appendLayerAsync, Fallible.run_bind, Fallible.run_get, Fallible.run_ofExcept,
    len_eq c₀ hlayer]
  cases hadd : checkedAdd (c₀.rowCount layer) tokens with
  | none => exact ⟨_, rfl⟩
  | some last =>
    obtain ⟨rfl, -⟩ := checkedAdd_eq_some_iff.1 hadd
    simp only [orInvalid, dif_neg (Nat.not_le.2 hfull)]
    exact ⟨_, rfl⟩

end KvCache

end NNIS
