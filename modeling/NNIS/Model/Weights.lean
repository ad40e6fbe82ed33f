import Mathlib.Algebra.Ring.Nat
import NNIS.Rt.Driver
import NNIS.Semantics.Checked
import NNIS.Semantics.Outcome
import NNIS.Sequence.FirstOccurrences

/-!
# Weight allocations

A decoder's weight graph names logical tensors. Several names may share one device allocation. The
accounting of `nnis-model/src/weights.rs` counts names once each and allocations once each; it sees
a name with the address of its allocation, its numeric kind and its sizes.

## Main definitions

* `WeightAllocationObservation`, `WeightAllocationSegmentV1`, `WeightAllocationSummaryV1`.
* `summarizeWeightAllocations` — the accounting.
* `Coherent`, `WithinCounters` — aliases agree, the totals fit.
* `Summarizes` — what a summary says.

## Main results

* `summarizeWeightAllocations_meets` — the accounting succeeds exactly when aliases agree and the
  totals fit, and its segments are the groups of the allocation keys.
* `summarizeWeightAllocations_eq_ok_iff` — the lists that have a summary.
-/

set_option autoImplicit false

namespace NNIS

/-- Numeric storage of one allocation. -/
inductive WeightAllocationDTypeV1
  | f32 | bf16 | f16
  deriving DecidableEq

/-! ### Accounting -/

/-- What the accounting refuses. -/
inductive WeightRefusal
  | noLiveAllocation (name : String)
  | overflow (label : String)
  | tooManyAllocations
  | indexOutside
  | aliasDisagrees (name : String)
  deriving DecidableEq

/-- The error of a refusal; `debug` is the quoted form of a text. -/
def WeightRefusal.error (debug : String → String) : WeightRefusal → NnisError
  | noLiveAllocation name =>
    .invalidInput s!"weight {name} has no live device allocation to account"
  | overflow label => .invalidInput s!"{label} overflows u64"
  | tooManyAllocations =>
    .invalidInput "weight allocation count exceeds u32 contract capacity"
  | indexOutside => .invalidInput "weight allocation index points outside summary"
  | aliasDisagrees name =>
    .invalidInput (s!"weight allocation alias {debug name} disagrees with the original " ++
      "allocation contract")

/-- One name as the accounting sees it. -/
structure WeightAllocationObservation where
  logicalName : String
  allocationKey : ℕ
  dtype : WeightAllocationDTypeV1
  elements : ℕ
  bytes : ℕ

/-- One allocation with its names. -/
structure WeightAllocationSegmentV1 where
  allocationIndex : ℕ
  dtype : WeightAllocationDTypeV1
  elements : ℕ
  bytes : ℕ
  logicalNames : List String

/-- The version of the accounting. -/
def nnisWeightAllocationSummaryVersion : ℕ := 1

/-- The accounting of a weight graph. -/
structure WeightAllocationSummaryV1 where
  schemaVersion : ℕ
  logicalTensorReferences : ℕ
  logicalElementReferences : ℕ
  uniqueDeviceAllocations : ℕ
  uniqueDeviceElements : ℕ
  ownedDeviceAllocationBytes : ℕ
  segments : List WeightAllocationSegmentV1

/-- A counter of 64 bits with a value added. -/
def checkedCount {ε : Type} (refuse : String → ε) (counter value : ℕ) (label : String) :
    Except ε ℕ :=
  match checkedAdd counter value with
  | none => .error (refuse label)
  | some total => .ok total

/-- The running state of the accounting. -/
structure WeightTally where
  logicalTensorReferences : ℕ
  logicalElementReferences : ℕ
  uniqueDeviceElements : ℕ
  ownedDeviceAllocationBytes : ℕ
  allocationIndices : ℕ → Option ℕ
  segments : List WeightAllocationSegmentV1

/-- No name yet. -/
def WeightTally.none : WeightTally := ⟨0, 0, 0, 0, fun _ => Option.none, []⟩

/-- Count one name. -/
def WeightTally.observe (tally : WeightTally) (observation : WeightAllocationObservation) :
    Except WeightRefusal WeightTally := do
  let references ← checkedCount WeightRefusal.overflow tally.logicalTensorReferences 1
    "logical tensor reference count"
  let elements ← checkedCount WeightRefusal.overflow tally.logicalElementReferences
    observation.elements "logical element reference count"
  match tally.allocationIndices observation.allocationKey with
  | some segmentIndex =>
    match tally.segments[segmentIndex]? with
    | .none => .error .indexOutside
    | some segment =>
      if segment.dtype ≠ observation.dtype ∨ segment.elements ≠ observation.elements ∨
          segment.bytes ≠ observation.bytes then
        .error (.aliasDisagrees observation.logicalName)
      else
        .ok { tally with
          logicalTensorReferences := references
          logicalElementReferences := elements
          segments := tally.segments.modify segmentIndex fun segment =>
            { segment with logicalNames := segment.logicalNames ++ [observation.logicalName] } }
  | .none =>
    if tally.segments.length < 2 ^ 32 then do
      let uniqueElements ← checkedCount WeightRefusal.overflow tally.uniqueDeviceElements
        observation.elements "unique device element count"
      let ownedBytes ← checkedCount WeightRefusal.overflow tally.ownedDeviceAllocationBytes
        observation.bytes "owned device allocation bytes"
      .ok
        { logicalTensorReferences := references
          logicalElementReferences := elements
          uniqueDeviceElements := uniqueElements
          ownedDeviceAllocationBytes := ownedBytes
          allocationIndices := Function.update tally.allocationIndices observation.allocationKey
            (some tally.segments.length)
          segments := tally.segments ++
            [{ allocationIndex := tally.segments.length
               dtype := observation.dtype
               elements := observation.elements
               bytes := observation.bytes
               logicalNames := [observation.logicalName] }] }
    else .error .tooManyAllocations

/-- The accounting of a list of names. -/
def summarizeWeightAllocations (observations : List WeightAllocationObservation) :
    Except WeightRefusal WeightAllocationSummaryV1 := do
  let tally ← observations.foldlM WeightTally.observe WeightTally.none
  .ok
    { schemaVersion := nnisWeightAllocationSummaryVersion
      logicalTensorReferences := tally.logicalTensorReferences
      logicalElementReferences := tally.logicalElementReferences
      uniqueDeviceAllocations := tally.segments.length
      uniqueDeviceElements := tally.uniqueDeviceElements
      ownedDeviceAllocationBytes := tally.ownedDeviceAllocationBytes
      segments := tally.segments }

/-! ### What the accounting counts -/

/-- Observations of one allocation agree on its kind and size. -/
def Coherent (l : List WeightAllocationObservation) : Prop :=
  ∀ a ∈ l, ∀ b ∈ l, a.allocationKey = b.allocationKey →
    a.dtype = b.dtype ∧ a.elements = b.elements ∧ a.bytes = b.bytes

/-- The distinct allocations of a list of observations. -/
abbrev distinctAllocations (l : List WeightAllocationObservation) :
    List WeightAllocationObservation :=
  firstsBy WeightAllocationObservation.allocationKey l

/-- The totals of a list of observations are within the counters. -/
structure WithinCounters (l : List WeightAllocationObservation) : Prop where
  references : l.length < wordLimit
  elements : (l.map (·.elements)).sum < wordLimit
  allocations : (distinctAllocations l).length ≤ 2 ^ 32
  uniqueElements : ((distinctAllocations l).map (·.elements)).sum < wordLimit
  ownedBytes : ((distinctAllocations l).map (·.bytes)).sum < wordLimit

/-- The segment of an allocation at its place. -/
def WeightAllocationSegmentV1.ofGroup (index : ℕ)
    (group : WeightAllocationObservation × List WeightAllocationObservation) :
    WeightAllocationSegmentV1 where
  allocationIndex := index
  dtype := group.1.dtype
  elements := group.1.elements
  bytes := group.1.bytes
  logicalNames := group.2.map (·.logicalName)

/-- The observations of a list with those of their allocation. -/
abbrev allocationGroups (l : List WeightAllocationObservation) :
    List (WeightAllocationObservation × List WeightAllocationObservation) :=
  groupsBy WeightAllocationObservation.allocationKey l

/-- A tally after a list of observations. -/
private structure Counts (l : List WeightAllocationObservation) (tally : WeightTally) : Prop where
  coherent : Coherent l
  within : WithinCounters l
  references : tally.logicalTensorReferences = l.length
  elements : tally.logicalElementReferences = (l.map (·.elements)).sum
  uniqueElements : tally.uniqueDeviceElements = ((distinctAllocations l).map (·.elements)).sum
  ownedBytes : tally.ownedDeviceAllocationBytes = ((distinctAllocations l).map (·.bytes)).sum
  indices : tally.allocationIndices = placeBy WeightAllocationObservation.allocationKey l
  segments : tally.segments = (allocationGroups l).mapIdx WeightAllocationSegmentV1.ofGroup

private theorem Counts.length_segments {l : List WeightAllocationObservation} {tally : WeightTally}
    (h : Counts l tally) : tally.segments.length = (distinctAllocations l).length := by
  rw [h.segments, List.length_mapIdx, length_groupsBy]

/-- A tally of observations, with one more of an allocation that has been met. -/
private theorem Coherent.concat_of_mem {l : List WeightAllocationObservation}
    {first o : WeightAllocationObservation} (h : Coherent l) (hfirst : first ∈ l)
    (hkey : first.allocationKey = o.allocationKey)
    (hsame : first.dtype = o.dtype ∧ first.elements = o.elements ∧ first.bytes = o.bytes) :
    Coherent (l ++ [o]) := by
  have hagrees : ∀ a ∈ l ++ [o], a.allocationKey = o.allocationKey →
      a.dtype = first.dtype ∧ a.elements = first.elements ∧ a.bytes = first.bytes := by
    intro a ha hak
    rcases List.mem_append.1 ha with ha | ha
    · exact h a ha first hfirst (hak.trans hkey.symm)
    · rw [List.mem_singleton.1 ha]
      exact ⟨hsame.1.symm, hsame.2.1.symm, hsame.2.2.symm⟩
  intro a ha b hb hab
  by_cases hak : a.allocationKey = o.allocationKey
  · obtain ⟨h₁, h₂, h₃⟩ := hagrees a ha hak
    obtain ⟨h₁', h₂', h₃'⟩ := hagrees b hb (hab ▸ hak)
    exact ⟨h₁.trans h₁'.symm, h₂.trans h₂'.symm, h₃.trans h₃'.symm⟩
  · have hold : ∀ c ∈ l ++ [o], c.allocationKey ≠ o.allocationKey → c ∈ l := by
      intro c hc hck
      refine (List.mem_append.1 hc).resolve_right fun hco => hck ?_
      rw [List.mem_singleton.1 hco]
    exact h a (hold a ha hak) b (hold b hb (hab ▸ hak)) hab

private theorem Coherent.concat_of_not_mem {l : List WeightAllocationObservation}
    {o : WeightAllocationObservation} (h : Coherent l)
    (hnew : o.allocationKey ∉ l.map WeightAllocationObservation.allocationKey) :
    Coherent (l ++ [o]) := by
  have hother : ∀ a ∈ l, a.allocationKey ≠ o.allocationKey := fun a ha hk =>
    hnew (hk ▸ List.mem_map_of_mem ha)
  intro a ha b hb hab
  rcases List.mem_append.1 ha with ha | ha <;> rcases List.mem_append.1 hb with hb | hb
  · exact h a ha b hb hab
  · rw [List.mem_singleton.1 hb] at hab
    exact absurd hab (hother a ha)
  · rw [List.mem_singleton.1 ha] at hab
    exact absurd hab.symm (hother b hb)
  · rw [List.mem_singleton.1 ha, List.mem_singleton.1 hb]
    exact ⟨rfl, rfl, rfl⟩

theorem Coherent.of_concat {l : List WeightAllocationObservation}
    {o : WeightAllocationObservation} (h : Coherent (l ++ [o])) : Coherent l :=
  fun a ha b hb => h a (List.mem_append_left _ ha) b (List.mem_append_left _ hb)

theorem WithinCounters.of_concat {l : List WeightAllocationObservation}
    {o : WeightAllocationObservation} (h : WithinCounters (l ++ [o])) : WithinCounters l := by
  obtain ⟨h₁, h₂, h₃, h₄, h₅⟩ := h
  rw [List.length_append] at h₁
  rw [List.map_append, List.sum_append] at h₂
  rw [distinctAllocations, firstsBy_concat] at h₃ h₄ h₅
  split_ifs at h₃ h₄ h₅
  · exact ⟨by omega, by omega, h₃, h₄, h₅⟩
  · rw [List.length_append] at h₃
    rw [List.map_append, List.sum_append] at h₄ h₅
    exact ⟨by omega, by omega, by rw [distinctAllocations]; omega,
      by rw [distinctAllocations]; omega, by rw [distinctAllocations]; omega⟩

theorem checkedCount_meets {ε : Type} (refuse : String → ε) (counter value : ℕ) (label : String) :
    Except.Meets (checkedCount refuse counter value label)
      (fun total => total = counter + value ∧ counter + value < wordLimit)
      fun e => e = refuse label ∧ ¬ counter + value < wordLimit := by
  rw [checkedCount, checkedAdd]
  by_cases h : counter + value < wordLimit
  · rw [if_pos h]
    exact ⟨rfl, h⟩
  · rw [if_neg h]
    exact ⟨rfl, h⟩

/-- The refusals that say that the accounting contradicts itself. -/
def WeightRefusal.isReconciliation : WeightRefusal → Bool
  | indexOutside | aliasDisagrees _ => true
  | _ => false

/-- A refusal for a list: a contradiction of its aliases, or a total that does not fit. -/
def WeightRefusal.Explained (l : List WeightAllocationObservation) (e : WeightRefusal) : Prop :=
  (e.isReconciliation = true → ¬ Coherent l) ∧ (e.isReconciliation = false → ¬ WithinCounters l)

theorem WeightRefusal.Explained.concat {l : List WeightAllocationObservation} {e : WeightRefusal}
    (h : e.Explained l) (o : WeightAllocationObservation) : e.Explained (l ++ [o]) :=
  ⟨fun he hc => h.1 he hc.of_concat, fun he hw => h.2 he hw.of_concat⟩

private theorem WeightRefusal.Explained.of_count {l : List WeightAllocationObservation}
    {e : WeightRefusal} (he : e.isReconciliation = false) (h : ¬ WithinCounters l) :
    e.Explained l :=
  ⟨fun ht => absurd (he.symm.trans ht) nofun, fun _ => h⟩

/-- A counter that the totals of a list bound. -/
private theorem checkedCount_explained {l : List WeightAllocationObservation}
    {counter value : ℕ} (label : String)
    (hwithin : WithinCounters l → counter + value < wordLimit) :
    Except.Meets (checkedCount WeightRefusal.overflow counter value label)
      (fun total => total = counter + value ∧ counter + value < wordLimit) fun e => e.Explained l :=
  (checkedCount_meets _ _ _ _).mono (fun _ ht => ht) fun e he =>
    .of_count (by rw [he.1]; rfl) fun hw => he.2 (hwithin hw)

/-- One more observation. -/
private theorem observe_meets {l : List WeightAllocationObservation}
    {o : WeightAllocationObservation} {tally : WeightTally} (h : Counts l tally) :
    Except.Meets (tally.observe o) (Counts (l ++ [o])) fun e => e.Explained (l ++ [o]) := by
  have hreferences : (l ++ [o]).length = tally.logicalTensorReferences + 1 := by
    rw [List.length_append, List.length_singleton, h.references]
  have helements : ((l ++ [o]).map (·.elements)).sum =
      tally.logicalElementReferences + o.elements := by
    rw [List.map_append, List.sum_append, List.map_singleton, List.sum_singleton, h.elements]
  have hlength := h.length_segments
  refine Except.Meets.bind (checkedCount_explained _ fun hw => hreferences ▸ hw.references) ?_
  rintro _ ⟨rfl, hfitReferences⟩
  refine Except.Meets.bind (checkedCount_explained _ fun hw => helements ▸ hw.elements) ?_
  rintro _ ⟨rfl, hfitElements⟩
  rw [h.indices]
  by_cases hmem : o.allocationKey ∈ l.map WeightAllocationObservation.allocationKey
  · -- An alias joins the names of its allocation.
    obtain ⟨first, hfirst, hkey⟩ := exists_firstsBy_rankBy hmem
    have hfirstMem := mem_of_mem_firstsBy (List.mem_of_getElem? hfirst)
    have hsegment : tally.segments[rankBy WeightAllocationObservation.allocationKey l
        o.allocationKey]? = some (.ofGroup
          (rankBy WeightAllocationObservation.allocationKey l o.allocationKey)
          (first, l.filter fun a => a.allocationKey = first.allocationKey)) := by
      rw [h.segments, List.getElem?_mapIdx, getElem?_groupsBy, hfirst]
      rfl
    rw [placeBy_eq_some_iff.2 ⟨hmem, rfl⟩]
    dsimp only
    rw [hsegment]
    dsimp only [WeightAllocationSegmentV1.ofGroup]
    by_cases hsame : first.dtype ≠ o.dtype ∨ first.elements ≠ o.elements ∨ first.bytes ≠ o.bytes
    · rw [if_pos hsame]
      refine ⟨fun _ hc => ?_, nofun⟩
      have hagree := hc first (List.mem_append_left _ hfirstMem) o
        (List.mem_append_right _ List.mem_cons_self) hkey
      exact hsame.elim (fun hd => hd hagree.1) fun hs =>
        hs.elim (fun he => he hagree.2.1) fun hb => hb hagree.2.2
    · rw [if_neg hsame]
      have hagree : first.dtype = o.dtype ∧ first.elements = o.elements ∧
          first.bytes = o.bytes := by
        simpa only [not_or, not_not] using hsame
      have hdistinct : distinctAllocations (l ++ [o]) = distinctAllocations l :=
        firstsBy_concat_of_mem hmem
      refine
        { coherent := h.coherent.concat_of_mem hfirstMem hkey hagree
          within :=
            { references := hreferences ▸ hfitReferences
              elements := helements ▸ hfitElements
              allocations := hdistinct ▸ h.within.allocations
              uniqueElements := hdistinct ▸ h.within.uniqueElements
              ownedBytes := hdistinct ▸ h.within.ownedBytes }
          references := hreferences.symm
          elements := helements.symm
          uniqueElements := by rw [hdistinct]; exact h.uniqueElements
          ownedBytes := by rw [hdistinct]; exact h.ownedBytes
          indices := (placeBy_concat_of_mem hmem).symm
          segments := List.ext_getElem? fun i => ?_ }
      rw [List.getElem?_mapIdx, allocationGroups, groupsBy_concat_of_mem hmem,
        List.getElem?_modify, List.getElem?_modify, h.segments, List.getElem?_mapIdx]
      cases (allocationGroups l)[i]? with
      | none => rfl
      | some group =>
        change some (if _ = i then _ else _) = some (WeightAllocationSegmentV1.ofGroup i
          (if _ = i then _ else _))
        split_ifs
        · rw [WeightAllocationSegmentV1.ofGroup, WeightAllocationSegmentV1.ofGroup,
            List.map_append]
          rfl
        · rfl
  · -- A new allocation is counted.
    have hplace : placeBy WeightAllocationObservation.allocationKey l o.allocationKey = none := by
      rw [placeBy, if_neg hmem]
    have hdistinct : distinctAllocations (l ++ [o]) = distinctAllocations l ++ [o] :=
      firstsBy_concat_of_not_mem hmem
    have hcount : (distinctAllocations (l ++ [o])).length = tally.segments.length + 1 := by
      rw [hdistinct, List.length_append, List.length_singleton, hlength]
    have hunique : ((distinctAllocations (l ++ [o])).map (·.elements)).sum =
        tally.uniqueDeviceElements + o.elements := by
      rw [hdistinct, List.map_append, List.sum_append, List.map_singleton, List.sum_singleton,
        h.uniqueElements]
    have howned : ((distinctAllocations (l ++ [o])).map (·.bytes)).sum =
        tally.ownedDeviceAllocationBytes + o.bytes := by
      rw [hdistinct, List.map_append, List.sum_append, List.map_singleton, List.sum_singleton,
        h.ownedBytes]
    rw [hplace]
    dsimp only
    by_cases hfit : tally.segments.length < 2 ^ 32
    · rw [if_pos hfit]
      refine Except.Meets.bind (checkedCount_explained _ fun hw => hunique ▸ hw.uniqueElements) ?_
      rintro _ ⟨rfl, hfitUnique⟩
      refine Except.Meets.bind (checkedCount_explained _ fun hw => howned ▸ hw.ownedBytes) ?_
      rintro _ ⟨rfl, hfitOwned⟩
      exact
        { coherent := h.coherent.concat_of_not_mem hmem
          within :=
            { references := hreferences ▸ hfitReferences
              elements := helements ▸ hfitElements
              allocations := hcount ▸ hfit
              uniqueElements := hunique ▸ hfitUnique
              ownedBytes := howned ▸ hfitOwned }
          references := hreferences.symm
          elements := helements.symm
          uniqueElements := hunique.symm
          ownedBytes := howned.symm
          indices := by rw [placeBy_concat_of_not_mem hmem, hlength]
          segments := by
            rw [allocationGroups, groupsBy_concat_of_not_mem hmem, List.mapIdx_concat,
              length_groupsBy, ← hlength, h.segments]
            rfl }
    · rw [if_neg hfit]
      refine .of_count rfl fun hw => hfit ?_
      have hallocations := hw.allocations
      rw [hcount] at hallocations
      omega

/-- What a summary says about the observations that it summarizes. -/
structure Summarizes (l : List WeightAllocationObservation) (summary : WeightAllocationSummaryV1) :
    Prop where
  schemaVersion : summary.schemaVersion = nnisWeightAllocationSummaryVersion
  references : summary.logicalTensorReferences = l.length
  elements : summary.logicalElementReferences = (l.map (·.elements)).sum
  allocations : summary.uniqueDeviceAllocations = (distinctAllocations l).length
  uniqueElements : summary.uniqueDeviceElements = ((distinctAllocations l).map (·.elements)).sum
  ownedBytes : summary.ownedDeviceAllocationBytes = ((distinctAllocations l).map (·.bytes)).sum
  segments : summary.segments = (allocationGroups l).mapIdx WeightAllocationSegmentV1.ofGroup

/-- The accounting summarizes the observations, unless aliases disagree or a total does not fit. -/
theorem summarizeWeightAllocations_meets (l : List WeightAllocationObservation) :
    Except.Meets (summarizeWeightAllocations l)
      (fun summary => (Coherent l ∧ WithinCounters l) ∧ Summarizes l summary)
      fun e => e.Explained l := by
  refine Except.Meets.bind (Except.Meets.foldlM Counts
    (fun done (e : WeightRefusal) => e.Explained done) l WeightTally.none ?_ ?_ ?_) ?_
  · exact
      { coherent := nofun
        within := ⟨by decide, by decide, by decide, by decide, by decide⟩
        references := rfl
        elements := rfl
        uniqueElements := rfl
        ownedBytes := rfl
        indices := rfl
        segments := rfl }
  · exact fun done o _ tally htally => observe_meets htally
  · exact fun done o e he => he.concat o
  · intro tally h
    exact ⟨⟨h.coherent, h.within⟩, rfl, h.references, h.elements, h.length_segments,
      h.uniqueElements, h.ownedBytes, h.segments⟩

/-- The lists that have a summary. -/
theorem summarizeWeightAllocations_eq_ok_iff (l : List WeightAllocationObservation) :
    (∃ summary, summarizeWeightAllocations l = .ok summary) ↔ Coherent l ∧ WithinCounters l := by
  have hmeets := summarizeWeightAllocations_meets l
  constructor
  · rintro ⟨summary, hok⟩
    exact (hmeets.of_ok hok).1
  · rintro ⟨hcoherent, hwithin⟩
    cases hrun : summarizeWeightAllocations l with
    | ok summary => exact ⟨summary, rfl⟩
    | error e =>
      have hexplained := hmeets.of_error hrun
      cases he : e.isReconciliation with
      | true => exact absurd hcoherent (hexplained.1 he)
      | false => exact absurd hwithin (hexplained.2 he)

end NNIS
