import NNIS.Rt.KvCompaction
import NNIS.Semantics.Outcome

/-!
# Compaction of one layer, and compositions

The layer compaction of `nnis-rt/src/kv_compaction.rs`: one layer is compacted to a selection of
its active rows, every other layer keeps all of its rows, and the whole cache is rebuilt for it.

A selection is an increasing list of positions. Selections compose, and a compaction by one
selection and then by another is one compaction by their composition.

## Main definitions

* `KvCache.compactKvCacheLayer`, `KvCache.composeSelection`.
* `KvCache.Compacted` — every row of a layer is the selected row of another cache.

## Main results

* `KvCache.compactKvCacheLayer_spec`, `KvCache.compactKvCache_ok`.
* `KvCache.compactKvCacheLayer_compose`, `KvCache.compactKvCache_compose`.
* `KvCache.compaction_correct`.
-/

set_option autoImplicit false

namespace NNIS

variable {config : KvCacheConfig} {V : Type}

namespace KvCache

/-- The selections of a layer compaction, one for each layer. -/
def layerSelections (cache : KvCache config V) (layer : ℕ) (retained : List ℕ) :
    Except NnisError (List (List ℕ)) :=
  (List.range config.layers).mapM fun currentLayer => do
    let currentActive ← cache.len currentLayer
    let selection := if currentLayer = layer then retained else List.range currentActive
    validateRetainedPositions currentActive selection
    if selection ≠ [] then
      let _ ← compactionScratchElements config selection.length
    return selection

/-- Compact one layer of a cache to an explicit selection of active rows, preserving every other
layer. -/
def compactKvCacheLayer (contents : ℕ → ℕ → V) (layer : ℕ) (retained : List ℕ) :
    Fallible (KvCache config V) NnisError PUnit := do
  if config.layers ≤ layer then
    Fallible.fail (.invalidInput
      s!"KV compaction layer {layer} is out of range for {config.layers} layers")
  else do
    let cache ← Fallible.get
    let active ← Fallible.ofExcept (cache.len layer)
    Fallible.ofExcept (validateRetainedPositions active retained)
    if retained = List.range active then synchronize .compact
    else if retained = [] then do
      synchronize .compact
      resetLayer layer
    else do
      let selections ← Fallible.ofExcept (cache.layerSelections layer retained)
      rebuildAndSwap contents selections

/-! ### Accepted selections -/

private theorem validateRetainedAfter_of {active : ℕ} {previous : Option ℕ} {retained : List ℕ}
    (hbound : ∀ p ∈ retained, p < active) (hpair : retained.Pairwise (· < ·))
    (hafter : ∀ last, previous = some last → ∀ p ∈ retained, last < p) :
    validateRetainedAfter active previous retained = .ok ⟨⟩ := by
  induction retained generalizing previous with
  | nil => rfl
  | cons position rest ih =>
    have hprevious : ¬ (previous.any fun last => decide (position ≤ last)) = true := by
      cases previous with
      | none => exact nofun
      | some last =>
        have hlt := hafter last rfl position List.mem_cons_self
        simp only [Option.any_some, decide_eq_true_eq, Nat.not_le, hlt]
    rw [validateRetainedAfter, if_neg (Nat.not_le.2 (hbound position List.mem_cons_self)),
      if_neg hprevious]
    refine ih (fun p hp => hbound p (List.mem_cons_of_mem position hp))
      (List.pairwise_cons.1 hpair).2 fun last hlast => ?_
    obtain rfl := Option.some.inj hlast
    exact (List.pairwise_cons.1 hpair).1

/-- Exactly the strictly increasing selections inside the active rows are accepted. -/
theorem validateRetainedPositions_eq_ok_iff {active : ℕ} {retained : List ℕ} :
    validateRetainedPositions active retained = .ok ⟨⟩ ↔
      (∀ p ∈ retained, p < active) ∧ retained.Pairwise (· < ·) :=
  ⟨validateRetainedPositions_ok, fun h => validateRetainedAfter_of h.1 h.2 nofun⟩

theorem validateRetainedPositions_range (active : ℕ) :
    validateRetainedPositions active (List.range active) = .ok ⟨⟩ :=
  validateRetainedPositions_eq_ok_iff.2 ⟨fun _ => List.mem_range.1, List.pairwise_lt_range⟩

/-- A selection for a layer is accepted. -/
def Accepts (c₀ : KvCache config V) (layer : ℕ) (retained : List ℕ) : Prop :=
  layer < config.layers ∧ validateRetainedPositions (c₀.rowCount layer) retained = .ok ⟨⟩

/-- With an accepted selection every other layer is selected as a whole. -/
theorem layerSelections_eq {c₀ : KvCache config V} {layer : ℕ} {retained : List ℕ}
    (h : c₀.Accepts layer retained) :
    c₀.layerSelections layer retained = .ok ((List.range config.layers).map fun l =>
      if l = layer then retained else List.range (c₀.rowCount l)) := by
  refine mapM_eq_ok fun l hl => ?_
  have hvalid : validateRetainedPositions (c₀.rowCount l)
      (if l = layer then retained else List.range (c₀.rowCount l)) = .ok ⟨⟩ := by
    by_cases hlayer : l = layer
    · rw [if_pos hlayer, hlayer]
      exact h.2
    · rw [if_neg hlayer]
      exact validateRetainedPositions_range _
  have hcount := (length_le_of_selected hvalid).trans (c₀.rowCount_le l)
  simp only [c₀.len_eq (List.mem_range.1 hl), hvalid, compactionScratchElements_eq hcount,
    Except.ok_bind]
  split_ifs <;> rfl

/-! ### What a compaction does -/

/-- A layer that is reset has no rows, the other ones keep theirs. -/
theorem resetLayer_later {c₀ : KvCache config V} {layer : ℕ} (hlayer : layer < config.layers) :
    Fallible.Spec (Later c₀) (resetLayer layer)
      (fun _ c => ∀ l, c.rows l = if l = layer then [] else c₀.rows l) fun _ => Refused c₀ := by
  rintro c ⟨s, rfl, -⟩
  simp only [resetLayer, Fallible.run_bind, Fallible.run_get, Fallible.run_ofExcept,
    (c₀.withStream s).len_eq hlayer]
  intro l
  have hcount := (c₀.withStream s).rowCount_setLength hlayer (Nat.zero_le _) l
  show (List.range (((c₀.withStream s).setLength layer 0 (Nat.zero_le _)).rowCount l)).map _ = _
  rw [hcount]
  split_ifs <;> rfl

/-- A layer compaction keeps the selected rows of its layer and all rows of the other layers, or
fails and leaves the cache as it was. -/
theorem compactKvCacheLayer_spec (c₀ : KvCache config V) (contents : ℕ → ℕ → V) (layer : ℕ)
    (retained : List ℕ) :
    Fallible.Spec (fun c => c = c₀) (compactKvCacheLayer contents layer retained)
      (fun _ c => c₀.Accepts layer retained ∧ ∀ l, c.rows l =
        if l = layer then retained.map (c₀.rowAt layer) else c₀.rows l)
      fun _ => Rejected c₀ (c₀.Accepts layer retained) := by
  have hrefused {α : Type} {m : Fallible (KvCache config V) NnisError α}
      {Q : α → KvCache config V → Prop}
      (h : Fallible.Spec (Later c₀) m Q fun _ => Refused c₀) :
      Fallible.Spec (fun c => c = c₀) m Q fun _ => Rejected c₀ (c₀.Accepts layer retained) :=
    h.conseq (fun c hc => hc ▸ Later.refl c₀) (fun _ _ hc => hc) fun _ _ hc => hc.rejected _
  rw [compactKvCacheLayer]
  by_cases hrange : config.layers ≤ layer
  · rw [if_pos hrange]
    exact Fallible.Spec.fail _ fun c hc =>
      ⟨hc ▸ Later.refl c₀, fun hall => absurd hall.1 (Nat.not_lt.2 hrange)⟩
  have hlayer := Nat.lt_of_not_le hrange
  rw [if_neg hrange]
  refine Fallible.Spec.get_bind ?_
  rw [c₀.len_eq hlayer, Fallible.ofExcept_ok_bind]
  refine Fallible.Spec.bind (R := fun _ c => c = c₀ ∧
    validateRetainedPositions (c₀.rowCount layer) retained = .ok ⟨⟩)
    (Fallible.Spec.ofExcept (fun _ hv c hc => ⟨hc, hv⟩) fun _ he c hc =>
      ⟨hc ▸ Later.refl c₀, fun hall => nomatch he.symm.trans hall.2⟩) fun _ =>
        Fallible.Spec.of_forall fun c₁ ⟨hc₁, hvalid⟩ => ?_
  subst hc₁
  have haccepts : c₁.Accepts layer retained := ⟨hlayer, hvalid⟩
  by_cases hidentity : retained = List.range (c₁.rowCount layer)
  · rw [if_pos hidentity]
    refine (hrefused (c₁.call_later _)).conseq (fun _ hc => hc) ?_ fun _ _ hc => hc
    rintro - c hc
    refine ⟨haccepts, fun l => ?_⟩
    rw [hc.rows_eq l]
    by_cases hl : l = layer
    · rw [if_pos hl, hl, hidentity, rows]
    · rw [if_neg hl]
  by_cases hempty : retained = []
  · rw [if_neg hidentity, if_pos hempty]
    refine (hrefused ((c₁.call_later _).bind fun _ => resetLayer_later hlayer)).conseq
      (fun _ hc => hc) ?_ fun _ _ hc => hc
    rintro - c hc
    refine ⟨haccepts, fun l => ?_⟩
    rw [hc l, hempty, List.map_nil]
  · rw [if_neg hidentity, if_neg hempty, layerSelections_eq haccepts, Fallible.ofExcept_ok_bind]
    have hgetD {l : ℕ} (hl : l < config.layers) :
        ((List.range config.layers).map fun l => if l = layer then retained
          else List.range (c₁.rowCount l)).getD l [] =
          if l = layer then retained else List.range (c₁.rowCount l) := by
      rw [List.getD_eq_getElem?_getD, List.getElem?_map, List.getElem?_range hl, Option.map_some,
        Option.getD_some]
    refine (c₁.rebuildAndSwap_spec contents _).conseq (fun _ hc => hc) ?_ fun _ c hc =>
      ⟨hc.1, fun _ => hc.2 ⟨by rw [List.length_map, List.length_range], fun l hl => ?_⟩⟩
    · rintro - c hc
      refine ⟨haccepts, fun l => ?_⟩
      rcases Nat.lt_or_ge l config.layers with hl | hl
      · rw [(hc.2 l hl).2, hgetD hl]
        by_cases heq : l = layer
        · rw [if_pos heq, if_pos heq, heq]
        · rw [if_neg heq, if_neg heq, rows]
      · rw [if_neg (by omega), rows_of_le _ hl, rows_of_le _ hl]
    · rw [Selected, hgetD hl]
      by_cases heq : l = layer
      · rw [if_pos heq, heq]
        exact hvalid
      · rw [if_neg heq]
        exact validateRetainedPositions_range _

/-- A compaction of the whole cache in terms of the rows at the selected positions. -/
theorem compactKvCache_ok {c₀ c : KvCache config V} {contents : ℕ → ℕ → V} {retained : List ℕ}
    (h : (compactKvCache contents retained).run c₀ = (.ok ⟨⟩, c)) :
    c₀.Uniform retained ∧ ∀ l < config.layers, c.rows l = retained.map (c₀.rowAt l) := by
  obtain ⟨-, hvalid, hrows⟩ := (c₀.compactKvCache_spec contents retained).ok rfl h
  refine ⟨⟨fun l hl => (hrows l hl).1, hvalid⟩, fun l hl => ?_⟩
  rw [(hrows l hl).2, c₀.selectRows_rows]
  intro p hp
  rw [(hrows l hl).1]
  exact (validateRetainedPositions_ok hvalid).1 p hp

/-- The rows of a layer that holds selected rows of another cache. -/
private theorem rowAt_of_rows {c₀ c : KvCache config V} {layer : ℕ} {selection : List ℕ}
    (h : c.rows layer = selection.map (c₀.rowAt layer)) :
    c.rowCount layer = selection.length ∧ ∀ (j : ℕ) (hj : j < selection.length),
      c.rowAt layer j = c₀.rowAt layer selection[j] := by
  have hlength : c.rowCount layer = selection.length := by
    rw [← length_rows, h, List.length_map]
  refine ⟨hlength, fun j hj => ?_⟩
  have hget := congrArg (fun rows => rows[j]?) h
  simp only [rows, List.getElem?_map, List.getElem?_range (hlength.symm ▸ hj), Option.map_some,
    List.getElem?_eq_getElem hj] at hget
  exact Option.some.inj hget

/-- Row `j` of every head of a layer is the selected row of that head, for keys and values. -/
structure Compacted (c₀ c : KvCache config V) (layer : ℕ) (selection : List ℕ) : Prop where
  len_eq : c.len layer = .ok selection.length
  keys_eq : ∀ (j : ℕ) (hj : j < selection.length), ∀ head < config.heads,
    region c.keys (config.slot layer head j * config.headDim) config.headDim =
      region c₀.keys (config.slot layer head selection[j] * config.headDim) config.headDim
  values_eq : ∀ (j : ℕ) (hj : j < selection.length), ∀ head < config.heads,
    region c.values (config.slot layer head j * config.headDim) config.headDim =
      region c₀.values (config.slot layer head selection[j] * config.headDim) config.headDim

/-- The row of a head is its part of the row of the layer. -/
private theorem region_slot_congr {layer : ℕ} {buffer buffer' : List V} {position position' : ℕ}
    (hlayer : layer < config.layers) (hposition : position < config.capacity)
    (hposition' : position' < config.capacity) (hbuffer : buffer.length = config.elementsPerSide)
    (hbuffer' : buffer'.length = config.elementsPerSide)
    (h : ((List.range config.heads).flatMap fun head =>
        region buffer (config.slot layer head position * config.headDim) config.headDim) =
      (List.range config.heads).flatMap fun head =>
        region buffer' (config.slot layer head position' * config.headDim) config.headDim)
    {head : ℕ} (hhead : head < config.heads) :
    region buffer (config.slot layer head position * config.headDim) config.headDim =
      region buffer' (config.slot layer head position' * config.headDim) config.headDim := by
  have hfit {b : List V} {p : ℕ} (hp : p < config.capacity)
      (hb : b.length = config.elementsPerSide) : ∀ hd < config.heads,
        (region b (config.slot layer hd p * config.headDim) config.headDim).length =
          config.headDim := by
    intro hd hhd
    refine length_region ?_
    rw [hb, ← Nat.succ_mul]
    exact KvCacheConfig.slot_le hlayer hhd hp
  rw [← region_flatMap_range (hfit hposition hbuffer) hhead, h,
    region_flatMap_range (hfit hposition' hbuffer') hhead]

theorem compacted_of_rows {c₀ c : KvCache config V} {layer : ℕ} {selection : List ℕ}
    (haccepts : c₀.Accepts layer selection)
    (h : c.rows layer = selection.map (c₀.rowAt layer)) : Compacted c₀ c layer selection := by
  obtain ⟨hlayer, hvalid⟩ := haccepts
  obtain ⟨hlength, hrow⟩ := rowAt_of_rows h
  have hnew {j : ℕ} (hj : j < selection.length) : j < config.capacity :=
    (hlength ▸ hj).trans_le (c.rowCount_le layer)
  have hold {j : ℕ} (hj : j < selection.length) : selection[j] < config.capacity :=
    ((validateRetainedPositions_ok hvalid).1 _ (List.getElem_mem hj)).trans_le
      (c₀.rowCount_le layer)
  refine ⟨by rw [c.len_eq hlayer, hlength], fun j hj head hhead => ?_, fun j hj head hhead => ?_⟩
  · exact region_slot_congr hlayer (hnew hj) (hold hj) c.length_keys c₀.length_keys
      (congrArg KvRow.key (hrow j hj)) hhead
  · exact region_slot_congr hlayer (hnew hj) (hold hj) c.length_values c₀.length_values
      (congrArg KvRow.value (hrow j hj)) hhead

/-! ### Compositions -/

/-- The positions that a second selection keeps of those of a first one. -/
def composeSelection (first second : List ℕ) : List ℕ := second.map fun j => first.getD j 0

/-- Accepted selections compose to an accepted selection. -/
theorem validateRetainedPositions_compose {active : ℕ} {first second : List ℕ}
    (hfirst : validateRetainedPositions active first = .ok ⟨⟩)
    (hsecond : validateRetainedPositions first.length second = .ok ⟨⟩) :
    validateRetainedPositions active (composeSelection first second) = .ok ⟨⟩ := by
  obtain ⟨hbound, hpair⟩ := validateRetainedPositions_ok hfirst
  obtain ⟨hbound', hpair'⟩ := validateRetainedPositions_ok hsecond
  have hget {j : ℕ} (hj : j < first.length) : first.getD j 0 = first[j] := by
    rw [List.getD_eq_getElem?_getD, List.getElem?_eq_getElem hj, Option.getD_some]
  refine validateRetainedPositions_eq_ok_iff.2 ⟨fun p hp => ?_, ?_⟩
  · obtain ⟨j, hj, rfl⟩ := List.mem_map.1 hp
    rw [hget (hbound' j hj)]
    exact hbound _ (List.getElem_mem _)
  · refine List.pairwise_map.2 (hpair'.imp_of_mem fun {i j} hi hj hlt => ?_)
    rw [hget (hbound' i hi), hget (hbound' j hj)]
    exact List.pairwise_iff_getElem.1 hpair i j _ _ hlt

/-- Rows selected twice are the rows of the composition. -/
theorem map_rowAt_compose {c₀ c₁ : KvCache config V} {layer : ℕ} {first second : List ℕ}
    (h : c₁.rows layer = first.map (c₀.rowAt layer))
    (hsecond : validateRetainedPositions first.length second = .ok ⟨⟩) :
    second.map (c₁.rowAt layer) = (composeSelection first second).map (c₀.rowAt layer) := by
  rw [composeSelection, List.map_map]
  refine List.map_congr_left fun j hj => ?_
  have hj := (validateRetainedPositions_ok hsecond).1 j hj
  rw [(rowAt_of_rows h).2 j hj, Function.comp_apply, List.getD_eq_getElem?_getD,
    List.getElem?_eq_getElem hj, Option.getD_some]

/-- Compacting a layer twice compacts it once. -/
theorem compactKvCacheLayer_compose {c₀ c₁ c₂ : KvCache config V} {contents contents' : ℕ → ℕ → V}
    {layer : ℕ} {first second : List ℕ}
    (h₁ : (compactKvCacheLayer contents layer first).run c₀ = (.ok ⟨⟩, c₁))
    (h₂ : (compactKvCacheLayer contents' layer second).run c₁ = (.ok ⟨⟩, c₂)) :
    c₀.Accepts layer (composeSelection first second) ∧
      ∀ (contents'' : ℕ → ℕ → V) (c : KvCache config V),
      (compactKvCacheLayer contents'' layer (composeSelection first second)).run c₀ = (.ok ⟨⟩, c) →
        ∀ l, c₂.rows l = c.rows l := by
  obtain ⟨haccepts, hrows⟩ := (c₀.compactKvCacheLayer_spec contents layer first).ok rfl h₁
  obtain ⟨haccepts', hrows'⟩ := (c₁.compactKvCacheLayer_spec contents' layer second).ok rfl h₂
  have hlayer := hrows layer
  rw [if_pos rfl] at hlayer
  have hsecond := haccepts'.2
  rw [(rowAt_of_rows hlayer).1] at hsecond
  refine ⟨⟨haccepts.1, validateRetainedPositions_compose haccepts.2 hsecond⟩,
    fun contents'' c h l => ?_⟩
  rw [hrows' l, ((c₀.compactKvCacheLayer_spec contents'' layer _).ok rfl h).2 l,
    map_rowAt_compose hlayer hsecond]
  by_cases hl : l = layer
  · rw [if_pos hl, if_pos hl]
  · rw [if_neg hl, if_neg hl, hrows l, if_neg hl]

/-- Compacting a cache twice compacts it once. -/
theorem compactKvCache_compose {c₀ c₁ c₂ : KvCache config V} {contents contents' : ℕ → ℕ → V}
    {first second : List ℕ}
    (h₁ : (compactKvCache contents first).run c₀ = (.ok ⟨⟩, c₁))
    (h₂ : (compactKvCache contents' second).run c₁ = (.ok ⟨⟩, c₂)) :
    c₀.Uniform (composeSelection first second) ∧ ∀ (contents'' : ℕ → ℕ → V) (c : KvCache config V),
      (compactKvCache contents'' (composeSelection first second)).run c₀ = (.ok ⟨⟩, c) →
        ∀ l, c₂.rows l = c.rows l := by
  obtain ⟨huniform, hrows⟩ := compactKvCache_ok h₁
  obtain ⟨huniform', hrows'⟩ := compactKvCache_ok h₂
  have hsecond := huniform'.2
  rw [(rowAt_of_rows (hrows 0 config.layers_pos)).1] at hsecond
  refine ⟨⟨huniform.1, validateRetainedPositions_compose huniform.2 hsecond⟩,
    fun contents'' c h l => ?_⟩
  rcases Nat.lt_or_ge l config.layers with hl | hl
  · rw [hrows' l hl, (compactKvCache_ok h).2 l hl, map_rowAt_compose (hrows l hl) hsecond]
  · rw [rows_of_le _ hl, rows_of_le _ hl]

/-! ### Correctness -/

/-- An operation whose driver accepts every call returns if its request is accepted. -/
private theorem exists_run_ok {m : Fallible (KvCache config V) NnisError PUnit}
    {c₀ : KvCache config V} {Q : PUnit → KvCache config V → Prop} {accepted : Prop}
    (h : Fallible.Spec (fun c => c = c₀) m Q fun _ => Rejected c₀ accepted)
    (haccepted : accepted) (haccepting : c₀.stream.Accepting) : ∃ c, m.run c₀ = (.ok ⟨⟩, c) := by
  rcases hrun : m.run c₀ with ⟨e | _, c⟩
  · exact absurd haccepting ((h.error rfl hrun).2 haccepted)
  · exact ⟨c, rfl⟩

/-- A compaction of one layer or of the whole cache: row `j` of every head is the selected row, the
lengths are the length of the selection and the other layers keep their rows. With an accepted
selection only a refused call can fail, a failure leaves the cache as it was, and two compactions
are one compaction by the composition of their selections. -/
theorem compaction_correct (c₀ : KvCache config V) (contents : ℕ → ℕ → V) (selection : List ℕ) :
    (∀ layer c, (compactKvCacheLayer contents layer selection).run c₀ = (.ok ⟨⟩, c) →
      c₀.Accepts layer selection ∧ Compacted c₀ c layer selection ∧
        ∀ l, l ≠ layer → c.rows l = c₀.rows l) ∧
    (∀ layer, c₀.Accepts layer selection → c₀.stream.Accepting →
      ∃ c, (compactKvCacheLayer contents layer selection).run c₀ = (.ok ⟨⟩, c)) ∧
    (∀ c, (compactKvCache contents selection).run c₀ = (.ok ⟨⟩, c) →
      c₀.Uniform selection ∧ ∀ l < config.layers, Compacted c₀ c l selection) ∧
    (c₀.Uniform selection → c₀.stream.Accepting →
      ∃ c, (compactKvCache contents selection).run c₀ = (.ok ⟨⟩, c)) ∧
    (∀ layer e c, (compactKvCacheLayer contents layer selection).run c₀ = (.error e, c) ∨
      (compactKvCache contents selection).run c₀ = (.error e, c) → ∃ s, c = c₀.withStream s) ∧
    (∀ layer c₁ contents' second c₂,
      (compactKvCacheLayer contents layer selection).run c₀ = (.ok ⟨⟩, c₁) →
      (compactKvCacheLayer contents' layer second).run c₁ = (.ok ⟨⟩, c₂) →
        c₀.Accepts layer (composeSelection selection second) ∧ ∀ contents'' c,
          (compactKvCacheLayer contents'' layer (composeSelection selection second)).run c₀ =
            (.ok ⟨⟩, c) → ∀ l, c₂.rows l = c.rows l) ∧
    ∀ c₁ contents' second c₂, (compactKvCache contents selection).run c₀ = (.ok ⟨⟩, c₁) →
      (compactKvCache contents' second).run c₁ = (.ok ⟨⟩, c₂) →
        c₀.Uniform (composeSelection selection second) ∧ ∀ contents'' c,
          (compactKvCache contents'' (composeSelection selection second)).run c₀ = (.ok ⟨⟩, c) →
            ∀ l, c₂.rows l = c.rows l := by
  refine ⟨fun layer c h => ?_, fun layer haccepts haccepting => ?_, fun c h => ?_,
    fun huniform haccepting => ?_, fun layer e c h => ?_,
    fun _ _ _ _ _ h₁ h₂ => compactKvCacheLayer_compose h₁ h₂,
    fun _ _ _ _ h₁ h₂ => compactKvCache_compose h₁ h₂⟩
  · obtain ⟨haccepts, hrows⟩ := (c₀.compactKvCacheLayer_spec contents layer selection).ok rfl h
    have hlayer := hrows layer
    rw [if_pos rfl] at hlayer
    refine ⟨haccepts, compacted_of_rows haccepts hlayer, fun l hl => ?_⟩
    rw [hrows l, if_neg hl]
  · exact exists_run_ok (c₀.compactKvCacheLayer_spec contents layer selection) haccepts haccepting
  · obtain ⟨huniform, hrows⟩ := compactKvCache_ok h
    refine ⟨huniform, fun l hl => compacted_of_rows ⟨hl, ?_⟩ (hrows l hl)⟩
    rw [huniform.1 l hl]
    exact huniform.2
  · exact exists_run_ok (c₀.compactKvCache_spec contents selection) huniform haccepting
  · have hlater : Later c₀ c := h.elim
      (fun h => ((c₀.compactKvCacheLayer_spec contents layer selection).error rfl h).1)
      fun h => ((c₀.compactKvCache_spec contents selection).error rfl h).1
    obtain ⟨s, hs, -⟩ := hlater
    exact ⟨s, hs⟩

end KvCache

end NNIS
