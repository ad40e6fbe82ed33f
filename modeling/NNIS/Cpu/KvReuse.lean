import NNIS.Core.KvReusePlan
import NNIS.Cpu.Replay
import NNIS.Memory.Slice

/-!
# Binding replay sources to a reuse plan

The consumer of a reuse plan in `nnis-cpu/src/kv_reuse.rs`: one dense source is bound to each owning
layer of each component, and a layer reads the source of its owner.

An accepted binding holds, for each component, exactly the sources of the owning layers, each in
the slot of its layer, and all of its sources cover the same positions. A layer reads the source of
its owner, which is not later than the layer and its own owner, and every window of the common
positions is replayed.

## Main definitions

* `CpuKvReuseError`, `CpuCrossLayerKvBindingV1`, `CpuCrossLayerKvBindingV1.new`.
* `CpuCrossLayerKvBindingV1.source`, `CpuCrossLayerKvBindingV1.replayWindow`,
  `CpuCrossLayerKvBindingV1.replayRecentWindow`, `CpuCrossLayerKvBindingV1.boundSourceCount`.
* `CpuCrossLayerKvBindingV1.supplied` — the sources given for a component.
* `CpuCrossLayerKvBindingV1.ReadsOwner` — a layer reads the source given for its owner.

## Main results

* `CpuCrossLayerKvBindingV1.boundSourceCount_eq` — one source for each owned stream.
* `CpuCrossLayerKvBindingV1.exists_readsOwner` — every layer of the plan reads its owner.
* `CpuCrossLayerKvBindingV1.new_readsOwner`.
-/

set_option autoImplicit false

namespace NNIS

/-- Fail-closed CPU cross-layer KV binding errors. -/
inductive CpuKvReuseError
  | plan (error : KvReusePlanError)
  | replay (error : CpuReplayError)
  | missingOwnerSource (layer : ℕ) (component : KvComponent)
  | duplicateOwnerSource (layer : ℕ) (component : KvComponent)
  | sourceForReusingLayer (layer : ℕ) (component : KvComponent)
  | sourceRangeMismatch (expectedStart expectedEnd actualStart actualEnd : ℕ)
  deriving DecidableEq

/-- The text of an error. -/
def CpuKvReuseError.text : CpuKvReuseError → String
  | plan error => s!"KV reuse plan: {error.text}"
  | replay error => s!"KV replay: {error.text}"
  | missingOwnerSource layer component =>
    s!"owning layer {layer} has no bound {component.name} source"
  | duplicateOwnerSource layer component =>
    s!"owning layer {layer} has more than one {component.name} source"
  | sourceForReusingLayer layer component =>
    s!"layer {layer} reuses its {component.name} cache and must not be given a source"
  | sourceRangeMismatch expectedStart expectedEnd actualStart actualEnd =>
    s!"bound source range {actualStart}..={actualEnd} differs from {expectedStart}..={expectedEnd}"

/-- The slots of a component, one for each layer of the plan. -/
abbrev SourceSlots := List (Option CpuReplaySourceV1)

/-- Put a source in the slot of its layer. -/
def bindSource (plan : CrossLayerKvReusePlanV1) (component : KvComponent) (slots : SourceSlots)
    (entry : ℕ × CpuReplaySourceV1) : Outcome CpuKvReuseError SourceSlots := do
  let (layer, source) := entry
  let declared ← .wrap .plan (plan.layer layer)
  .require (declared.source component = .own) (.sourceForReusingLayer layer component)
  let slot ← .index slots layer
  .require (slot.isSome = false) (.duplicateOwnerSource layer component)
  .modifyAt slots layer fun _ => some source

/-- Bind the sources of one component. -/
def bindComponent (plan : CrossLayerKvReusePlanV1) (component : KvComponent)
    (sources : List (ℕ × CpuReplaySourceV1)) : Outcome CpuKvReuseError SourceSlots := do
  let slots ← sources.foldlM (bindSource plan component) (List.replicate plan.layerCount none)
  (plan.owningLayers component).forM fun layer => do
    let slot ← .index slots layer
    .require (slot.isSome = true) (.missingOwnerSource layer component)
  pure slots

/-- Compare the range of a source with the range of the earlier ones. -/
def checkRange (range : Option (ℕ × ℕ)) (source : CpuReplaySourceV1) :
    Outcome CpuKvReuseError (Option (ℕ × ℕ)) :=
  let bound := (source.identity.logicalStartPosition, source.identity.logicalEndPosition)
  match range with
  | none => pure (some bound)
  | some expected =>
    if expected ≠ bound then
      .raise (.sourceRangeMismatch expected.1 expected.2 bound.1 bound.2)
    else pure (some expected)

/-- Owner replay sources bound to a validated plan. -/
structure CpuCrossLayerKvBindingV1 where
  plan : CrossLayerKvReusePlanV1
  keys : SourceSlots
  values : SourceSlots
  deriving DecidableEq

namespace CpuCrossLayerKvBindingV1

/-- Bind one source for each owning layer of each component. -/
def new (plan : CrossLayerKvReusePlanV1) (keySources valueSources : List (ℕ × CpuReplaySourceV1)) :
    Outcome CpuKvReuseError CpuCrossLayerKvBindingV1 := do
  let keys ← bindComponent plan .key keySources
  let values ← bindComponent plan .value valueSources
  let _ ← ((keys ++ values).filterMap id).foldlM checkRange none
  pure ⟨plan, keys, values⟩

variable (binding : CpuCrossLayerKvBindingV1)

/-- The slots of a component. -/
def slots : KvComponent → SourceSlots
  | .key => binding.keys
  | .value => binding.values

/-- Owner source read by a layer for a component. -/
def source (layer : ℕ) (component : KvComponent) : Outcome CpuKvReuseError CpuReplaySourceV1 := do
  let owner ← .wrap .plan (binding.plan.owner layer component)
  .okOr ((binding.slots component)[owner]?.bind id) (.missingOwnerSource owner component)

/-- Replay a validated window for a layer and a component from its owner. -/
def replayWindow (layer : ℕ) (component : KvComponent) (request : ReplayWindowRequestV1) :
    Outcome CpuKvReuseError (List F32) := do
  let source ← binding.source layer component
  .wrap .replay (source.replayWindow request)

/-- Replay the most recent window for a layer and a component. -/
def replayRecentWindow (layer : ℕ) (component : KvComponent) (windowItems : ℕ) :
    Outcome CpuKvReuseError (ReplayWindowRequestV1 × List F32) := do
  let source ← binding.source layer component
  .wrap .replay (source.replayRecentWindow windowItems)

/-- Number of bound owner sources for a component. -/
def boundSourceCount (component : KvComponent) : ℕ :=
  ((binding.slots component).filter Option.isSome).length

end CpuCrossLayerKvBindingV1

/-! ### Binding a component -/

/-- The slots hold the sources given so far, each for a layer that owns the component. -/
private structure Bound (plan : CrossLayerKvReusePlanV1) (component : KvComponent)
    (sources : List (ℕ × CpuReplaySourceV1)) (slots : SourceSlots) : Prop where
  length : slots.length = plan.layerCount
  owns : ∀ entry ∈ sources, plan.Owns entry.1 component
  holds : ∀ layer source, slots[layer]? = some (some source) ↔ (layer, source) ∈ sources

private theorem bound_nil (plan : CrossLayerKvReusePlanV1) (component : KvComponent) :
    Bound plan component [] (List.replicate plan.layerCount none) where
  length := List.length_replicate
  owns := nofun
  holds layer source := by
    refine ⟨fun h => ?_, nofun⟩
    rw [List.getElem?_replicate] at h
    split_ifs at h
    exact nomatch Option.some.inj h

private theorem bindSource_spec {plan : CrossLayerKvReusePlanV1} {component : KvComponent}
    {sources : List (ℕ × CpuReplaySourceV1)} {slots slots' : SourceSlots}
    {entry : ℕ × CpuReplaySourceV1} (hinv : Bound plan component sources slots)
    (h : bindSource plan component slots entry = .ok slots') :
    Bound plan component (sources ++ [entry]) slots' := by
  obtain ⟨layer, source⟩ := entry
  simp only [bindSource, CrossLayerKvReusePlanV1.layer, Except.bind_eq_ok_iff,
    Outcome.wrap_eq_ok_iff, Outcome.okOr_eq_ok_iff, Outcome.require_eq_ok_iff,
    Outcome.index_eq_ok_iff, Outcome.modifyAt_eq_ok_iff] at h
  obtain ⟨declared, hlayer, _, hown, slot, hslot, _, hfree, hlt, rfl⟩ := h
  have hslotNone : slot = none := Option.not_isSome_iff_eq_none.1 (Bool.eq_false_iff.1 hfree)
  subst hslotNone
  refine ⟨?_, ?_, ?_⟩
  · rw [List.length_modify, hinv.length]
  · intro entry hentry
    rcases List.mem_append.1 hentry with hentry | hentry
    · exact hinv.owns entry hentry
    · obtain rfl := List.mem_singleton.1 hentry
      exact ⟨declared, hlayer, hown⟩
  · intro other value
    rw [List.mem_append, List.mem_singleton, Prod.mk.injEq, ← hinv.holds other value,
      List.getElem?_modify]
    by_cases heq : layer = other
    · subst heq
      simp only [hslot, Option.map_eq_map, Option.map_some, ↓reduceIte, true_and]
      constructor
      · intro h
        exact .inr (Option.some.inj (Option.some.inj h)).symm
      · rintro (h | rfl)
        · cases Option.some.inj h
        · rfl
    · simp only [heq, ↓reduceIte, Option.map_eq_map, Option.map_id']
      exact ⟨.inl, fun h => h.elim id fun hne => absurd hne.1.symm heq⟩

/-- What binding a component does. -/
private theorem bindComponent_spec {plan : CrossLayerKvReusePlanV1} {component : KvComponent}
    {sources : List (ℕ × CpuReplaySourceV1)} {slots : SourceSlots}
    (h : bindComponent plan component sources = .ok slots) :
    Bound plan component sources slots ∧
      ∀ layer, plan.Owns layer component → ∃ source, (layer, source) ∈ sources := by
  simp only [bindComponent, Except.bind_eq_ok_iff, Except.pure_eq_ok_iff] at h
  obtain ⟨bound, hrun, _, howning, rfl⟩ := h
  have hbound := Outcome.foldlM_invariant (fun i => Bound plan component (sources.take i))
    (fun i hi b b' hb hstep => by
      rw [← List.take_append_getElem hi]
      exact bindSource_spec hb hstep) (bound_nil plan component) hrun
  rw [List.take_length] at hbound
  refine ⟨hbound, fun layer howns => ?_⟩
  have hlayer := Outcome.forM_eq_ok_iff.1 howning layer (plan.mem_owningLayers_iff.2 howns)
  simp only [Except.bind_eq_ok_iff, Outcome.require_eq_ok_iff, Outcome.index_eq_ok_iff] at hlayer
  obtain ⟨slot, hslot, hsome⟩ := hlayer
  obtain ⟨source, rfl⟩ := Option.isSome_iff_exists.1 hsome
  exact ⟨source, (hbound.holds layer source).1 hslot⟩

/-- A component is bound to as many sources as the plan counts. -/
private theorem Bound.length_filter {plan : CrossLayerKvReusePlanV1} {component : KvComponent}
    {sources : List (ℕ × CpuReplaySourceV1)} {slots : SourceSlots}
    (hinv : Bound plan component sources slots)
    (hall : ∀ layer, plan.Owns layer component → ∃ source, (layer, source) ∈ sources) :
    (slots.filter Option.isSome).length = plan.ownedCount component := by
  have hmap : slots.map Option.isSome =
      plan.layers.map fun layer => decide (layer.source component = .own) := by
    refine List.ext_getElem (by simp only [List.length_map]; exact hinv.length) fun i hi hi' => ?_
    rw [List.length_map] at hi hi'
    rw [List.getElem_map, List.getElem_map, Bool.eq_iff_iff, decide_eq_true_iff,
      Option.isSome_iff_exists]
    constructor
    · rintro ⟨source, hsource⟩
      have hmem := (hinv.holds i source).1 (hsource ▸ List.getElem?_eq_getElem hi)
      obtain ⟨declared, hlayer, hown⟩ := hinv.owns _ hmem
      obtain rfl := Option.some.inj ((List.getElem?_eq_getElem hi').symm.trans hlayer)
      exact hown
    · intro hown
      obtain ⟨source, hmem⟩ := hall i ⟨_, List.getElem?_eq_getElem hi', hown⟩
      have hslot := (hinv.holds i source).2 hmem
      rw [List.getElem?_eq_getElem hi] at hslot
      exact ⟨source, Option.some.inj hslot⟩
  have hcount := congrArg (List.countP id) hmap
  rw [List.countP_map, List.countP_map] at hcount
  rw [CrossLayerKvReusePlanV1.ownedCount, ← List.countP_eq_length_filter,
    ← List.countP_eq_length_filter]
  exact hcount

/-- The sources that pass the range check cover one range. -/
private theorem exists_range {sources : List CpuReplaySourceV1} {range range' : Option (ℕ × ℕ)}
    (h : sources.foldlM checkRange range = .ok range') :
    (∀ expected, range = some expected → range' = some expected) ∧
      ∀ source ∈ sources, range' =
        some (source.identity.logicalStartPosition, source.identity.logicalEndPosition) := by
  induction sources generalizing range with
  | nil =>
    obtain rfl := Except.pure_eq_ok_iff.1 h
    exact ⟨fun _ => id, nofun⟩
  | cons source sources ih =>
    rw [List.foldlM_cons, Except.bind_eq_ok_iff] at h
    obtain ⟨next, hstep, hrun⟩ := h
    obtain ⟨hkeep, hall⟩ := ih hrun
    have hnext : next =
        some (source.identity.logicalStartPosition, source.identity.logicalEndPosition) ∧
          ∀ expected, range = some expected → next = some expected := by
      cases range with
      | none => exact ⟨(Except.pure_eq_ok_iff.1 hstep).symm, nofun⟩
      | some expected =>
        simp only [checkRange] at hstep
        split_ifs at hstep with hne
        · exact absurd hstep nofun
        · obtain rfl := Except.pure_eq_ok_iff.1 hstep
          exact ⟨congrArg some (Decidable.not_not.1 hne), fun _ => id⟩
    refine ⟨fun expected he => hkeep expected (hnext.2 expected he), ?_⟩
    rw [List.forall_mem_cons]
    exact ⟨hkeep _ hnext.1, hall⟩

/-! ### Reads -/

namespace CpuCrossLayerKvBindingV1

/-- The sources given for a component. -/
def supplied (keySources valueSources : List (ℕ × CpuReplaySourceV1)) :
    KvComponent → List (ℕ × CpuReplaySourceV1)
  | .key => keySources
  | .value => valueSources

/-- A layer of a binding reads, for a component, the source given for its owner, and every window
of the positions `start..=stop` is replayed from it, as for the owner itself. -/
structure ReadsOwner (binding : CpuCrossLayerKvBindingV1) (sources : List (ℕ × CpuReplaySourceV1))
    (start stop layer : ℕ) (component : KvComponent) (owner : ℕ) (source : CpuReplaySourceV1) :
    Prop where
  owner_eq : binding.plan.owner layer component = .ok owner
  owner_le : owner ≤ layer
  owner_owner : binding.plan.owner owner component = .ok owner
  mem_sources : (owner, source) ∈ sources
  unique : ∀ other, (owner, other) ∈ sources → other = source
  source_eq : binding.source layer component = .ok source
  source_owner : binding.source owner component = .ok source
  start_eq : source.identity.logicalStartPosition = start
  stop_eq : source.identity.logicalEndPosition = stop
  replayWindow : ∀ first last, start ≤ first → first ≤ last → last ≤ stop →
    ∃ request, ReplayWindowRequestV1.new source.identity first last = .ok request ∧
      binding.replayWindow layer component request = .ok (source.window first last) ∧
      binding.replayWindow owner component request = .ok (source.window first last)
  replayRecentWindow : ∀ items, items ≠ 0 → items ≤ stop - start + 1 →
    ∃ request, ReplayWindowRequestV1.new source.identity (stop - (items - 1)) stop = .ok request ∧
      binding.replayRecentWindow layer component items =
        .ok (request, source.window (stop - (items - 1)) stop) ∧
      binding.replayRecentWindow owner component items =
        .ok (request, source.window (stop - (items - 1)) stop)

variable {plan : CrossLayerKvReusePlanV1} {keySources valueSources : List (ℕ × CpuReplaySourceV1)}
  {binding : CpuCrossLayerKvBindingV1}

/-- What an accepted binding holds. -/
private theorem new_spec (h : new plan keySources valueSources = .ok binding) :
    binding.plan = plan ∧
      (∀ component, Bound plan component (supplied keySources valueSources component)
        (binding.slots component) ∧ ∀ layer, plan.Owns layer component →
          ∃ source, (layer, source) ∈ supplied keySources valueSources component) ∧
      ∃ range, ∀ component, ∀ entry ∈ supplied keySources valueSources component,
        range = some (entry.2.identity.logicalStartPosition, entry.2.identity.logicalEndPosition)
    := by
  simp only [new, Except.bind_eq_ok_iff, Except.pure_eq_ok_iff] at h
  obtain ⟨keys, hkeys, values, hvalues, range, hrange, rfl⟩ := h
  have hbound : ∀ component, Bound plan component (supplied keySources valueSources component)
      ((⟨plan, keys, values⟩ : CpuCrossLayerKvBindingV1).slots component) ∧
        ∀ layer, plan.Owns layer component →
          ∃ source, (layer, source) ∈ supplied keySources valueSources component
    | .key => bindComponent_spec hkeys
    | .value => bindComponent_spec hvalues
  refine ⟨rfl, hbound, range, fun component entry hentry => ?_⟩
  refine (exists_range hrange).2 entry.2 ?_
  have hslot := List.mem_of_getElem? (((hbound component).1.holds entry.1 entry.2).2 hentry)
  refine List.mem_filterMap.2 ⟨some entry.2, List.mem_append.2 ?_, rfl⟩
  cases component with
  | key => exact .inl hslot
  | value => exact .inr hslot

/-- A component is bound to as many sources as the plan has owned streams. -/
theorem boundSourceCount_eq (h : new plan keySources valueSources = .ok binding)
    (component : KvComponent) :
    binding.boundSourceCount component = plan.ownedCount component := by
  obtain ⟨hinv, hall⟩ := (new_spec h).2.1 component
  exact hinv.length_filter hall

/-- The source read by a layer is the one given for its owner. -/
private theorem source_eq_of_mem (h : new plan keySources valueSources = .ok binding)
    {layer owner : ℕ} {component : KvComponent} {source : CpuReplaySourceV1}
    (howner : plan.owner layer component = .ok owner)
    (hmem : (owner, source) ∈ supplied keySources valueSources component) :
    binding.source layer component = .ok source := by
  obtain ⟨rfl, hbound, -⟩ := new_spec h
  simp only [CpuCrossLayerKvBindingV1.source, Except.bind_eq_ok_iff, Outcome.wrap_eq_ok_iff,
    Outcome.okOr_eq_ok_iff]
  refine ⟨owner, howner, ?_⟩
  rw [((hbound component).1.holds owner source).2 hmem]
  rfl

/-- A window of the source read by a layer is replayed. -/
private theorem replayWindow_of_source {layer : ℕ} {component : KvComponent}
    {source : CpuReplaySourceV1} (hsource : binding.source layer component = .ok source)
    {request : ReplayWindowRequestV1} (hrequest : request.source = source.identity) :
    binding.replayWindow layer component request =
      .ok (source.window request.logicalStartPosition request.logicalEndPosition) := by
  rw [CpuCrossLayerKvBindingV1.replayWindow, hsource, Except.ok_bind,
    source.replayWindow_eq_ok request hrequest]
  rfl

/-- A recent window of the source read by a layer is replayed. -/
private theorem replayRecentWindow_of_source {layer : ℕ} {component : KvComponent}
    {source : CpuReplaySourceV1} (hsource : binding.source layer component = .ok source)
    {items : ℕ} {request : ReplayWindowRequestV1}
    (hrequest : ReplayWindowRequestV1.recent source.identity items = .ok request)
    (hidentity : request.source = source.identity) :
    binding.replayRecentWindow layer component items =
      .ok (request, source.window request.logicalStartPosition request.logicalEndPosition) := by
  rw [CpuCrossLayerKvBindingV1.replayRecentWindow, hsource, Except.ok_bind,
    CpuReplaySourceV1.replayRecentWindow, hrequest]
  simp only [Outcome.wrap, Except.ok_bind, source.replayWindow_eq_ok request hidentity]
  rfl

/-- In an accepted binding every layer of the plan reads each component from its owner. -/
theorem exists_readsOwner (h : new plan keySources valueSources = .ok binding) :
    ∃ start stop, ∀ layer < plan.layerCount, ∀ component, ∃ owner source,
      binding.ReadsOwner (supplied keySources valueSources component) start stop layer component
        owner source := by
  obtain ⟨hplan, hbound, range, hrange⟩ := new_spec h
  refine ⟨(range.getD (0, 0)).1, (range.getD (0, 0)).2, fun layer hlayer component => ?_⟩
  obtain ⟨owner, howner, hle, howns⟩ := plan.exists_owner hlayer component
  obtain ⟨source, hmem⟩ := (hbound component).2 owner howns
  have hsource := source_eq_of_mem h howner hmem
  have hself := source_eq_of_mem h howns.owner_eq hmem
  rw [hrange component _ hmem, Option.getD_some]
  have hslot := ((hbound component).1.holds owner source).2 hmem
  refine ⟨owner, source, hplan ▸ howner, hle, hplan ▸ howns.owner_eq, hmem, fun other hother => ?_,
    hsource, hself, rfl, rfl, fun first last hfirst hrange hlast => ?_, fun items hne hitems => ?_⟩
  · have heq := (((hbound component).1.holds owner other).2 hother).symm.trans hslot
    exact Option.some.inj (Option.some.inj heq)
  · exact ⟨_, ReplayWindowRequestV1.exists_new hrange hfirst hlast,
      replayWindow_of_source hsource rfl, replayWindow_of_source hself rfl⟩
  · have hrecent := ReplayWindowRequestV1.recent_eq hne hitems
    have hfirst : source.identity.logicalStartPosition ≤
        source.identity.logicalEndPosition - (items - 1) := by
      have hrange := source.identity.start_le_end
      dsimp only at hitems
      omega
    have hnew := ReplayWindowRequestV1.exists_new
      (Nat.sub_le source.identity.logicalEndPosition (items - 1)) hfirst (Nat.le_refl _)
    rw [hnew] at hrecent
    exact ⟨_, hnew, replayRecentWindow_of_source hsource hrecent rfl,
      replayRecentWindow_of_source hself hrecent rfl⟩

/-- An accepted binding of an accepted plan: it binds one source for each owned stream, and every
layer reads each component, and replays each window of the common positions, from its owner. -/
theorem new_readsOwner (h : new plan keySources valueSources = .ok binding) :
    binding.plan = plan ∧
      (∀ component, binding.boundSourceCount component = plan.ownedCount component) ∧
      ∃ start stop, ∀ layer < plan.layerCount, ∀ component, ∃ owner source,
        binding.ReadsOwner (supplied keySources valueSources component) start stop layer component
          owner source :=
  ⟨(new_spec h).1, boundSourceCount_eq h, exists_readsOwner h⟩

/-- A plan of two layers, the second of which reuses the key cache of the first. -/
private def samplePlan : CrossLayerKvReusePlanV1 :=
  ⟨"plan", "model", 1, [⟨.own, .own⟩, ⟨.reuseFrom 0, .own⟩], by decide +kernel⟩

/-- A source of two positions. -/
private def sampleSource (negative : Bool) : CpuReplaySourceV1 where
  identity := ⟨"cpu", "cache", 0, ⟨"dense", 1, 0, by decide +kernel, by decide⟩, 4, 5,
    by decide +kernel, by decide +kernel, by decide, by decide⟩
  rowWidth := 1
  rows := [⟨negative, 1, by decide⟩, ⟨negative, 2, by decide⟩]
  valid := by cases negative <;> decide +kernel

private def sampleBinding : CpuCrossLayerKvBindingV1 where
  plan := samplePlan
  keys := [some (sampleSource false), none]
  values := [some (sampleSource false), some (sampleSource true)]

theorem new_readsOwner_samplePlan :
    sampleBinding.plan = samplePlan ∧
      (∀ component, sampleBinding.boundSourceCount component = samplePlan.ownedCount component) ∧
      ∃ start stop, ∀ layer < samplePlan.layerCount, ∀ component, ∃ owner source,
        sampleBinding.ReadsOwner (supplied [(0, sampleSource false)]
          [(1, sampleSource true), (0, sampleSource false)] component) start stop layer component
            owner source :=
  new_readsOwner (by decide +kernel)

end CpuCrossLayerKvBindingV1

end NNIS
