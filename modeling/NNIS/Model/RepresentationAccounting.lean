import NNIS.Model.Weights
import Mathlib.Algebra.Group.Action.Defs
import Mathlib.Algebra.Order.BigOperators.Group.List

/-!
# The check of an allocation summary

Representation accounting divides by the counts of a summary of the weight allocations, which
`nnis-model/src/weight_representation_accounting.rs` reads again: every total is recomputed from the
segments.

## Main definitions

* `validateSourceSummary` — the check of a summary.
* `WeightAllocationSummaryV1.Reconciled` — what the check accepts.

## Main results

* `validateSourceSummary_eq_ok_iff` — the accepted summaries.
* `Summarizes.reconciled` — a summary of non-empty tensors is accepted.
* `summarizeWeightAllocations_correct` — the whole accounting.
-/

set_option autoImplicit false

namespace NNIS

/-! ### The check of a summary -/

/-- The totals that are recomputed from the segments. -/
structure SegmentTotals where
  uniqueElements : ℕ
  uniqueBytes : ℕ
  logicalTensors : ℕ
  logicalElements : ℕ
  deriving DecidableEq

/-- No segment yet. -/
def SegmentTotals.zero : SegmentTotals := ⟨0, 0, 0, 0⟩

/-- A counter of 64 bits with a value added. -/
private def countChecked (counter value : ℕ) (refusal : String) : Except NnisError ℕ :=
  checkedCount NnisError.invalidInput counter value refusal

/-- Check one segment at its index and count it. -/
def SegmentTotals.visit (totals : SegmentTotals) (entry : WeightAllocationSegmentV1 × ℕ) :
    Except NnisError SegmentTotals :=
  let (segment, index) := entry
  if ¬ index < 2 ^ 32 then
    .error (.invalidInput "weight allocation index exceeds u32")
  else if segment.allocationIndex ≠ index then
    .error (.invalidInput "weight allocation indices are not canonical and contiguous")
  else if segment.elements = 0 ∨ segment.bytes = 0 ∨ segment.logicalNames = [] then
    .error (.invalidInput
      "weight allocation segment contains a zero count or no logical names")
  else do
    let uniqueElements ← countChecked totals.uniqueElements segment.elements
      "unique device element count overflows u64"
    let uniqueBytes ← countChecked totals.uniqueBytes segment.bytes
      "owned device byte count overflows u64"
    let aliases := segment.logicalNames.length
    let logicalTensors ← countChecked totals.logicalTensors aliases
      "logical tensor reference count overflows u64"
    match checkedMul segment.elements aliases with
    | none => .error (.invalidInput "logical element alias accounting overflows u64")
    | some references => do
      let logicalElements ← countChecked totals.logicalElements references
        "logical element reference count overflows u64"
      .ok ⟨uniqueElements, uniqueBytes, logicalTensors, logicalElements⟩

/-- The check of a summary. On a 64-bit host the allocation count always fits the length type. -/
def validateSourceSummary (source : WeightAllocationSummaryV1) : Except NnisError PUnit :=
  if source.schemaVersion ≠ nnisWeightAllocationSummaryVersion then
    .error (.unsupported (s!"weight allocation summary schema {source.schemaVersion}; " ++
      s!"supported version is {nnisWeightAllocationSummaryVersion}"))
  else if source.segments.length ≠ source.uniqueDeviceAllocations then
    .error (.invalidInput "weight allocation segment count disagrees with summary")
  else do
    let totals ← source.segments.zipIdx.foldlM SegmentTotals.visit SegmentTotals.zero
    if totals.uniqueElements ≠ source.uniqueDeviceElements ∨
        totals.uniqueBytes ≠ source.ownedDeviceAllocationBytes ∨
        totals.logicalTensors ≠ source.logicalTensorReferences ∨
        totals.logicalElements ≠ source.logicalElementReferences then
      .error (.invalidInput "weight allocation summary totals do not reconcile with segments")
    else .ok ⟨⟩

/-! ### What the check accepts -/

/-- A segment that may stand at an index. -/
structure WeightAllocationSegmentV1.ValidAt (segment : WeightAllocationSegmentV1) (index : ℕ) :
    Prop where
  index_lt : index < 2 ^ 32
  index_eq : segment.allocationIndex = index
  elements : segment.elements ≠ 0
  bytes : segment.bytes ≠ 0
  names : segment.logicalNames ≠ []

/-- The totals with one more segment. -/
def SegmentTotals.plus (totals : SegmentTotals) (segment : WeightAllocationSegmentV1) :
    SegmentTotals where
  uniqueElements := totals.uniqueElements + segment.elements
  uniqueBytes := totals.uniqueBytes + segment.bytes
  logicalTensors := totals.logicalTensors + segment.logicalNames.length
  logicalElements := totals.logicalElements + segment.elements * segment.logicalNames.length

/-- The totals fit 64 bits. -/
structure SegmentTotals.InRange (totals : SegmentTotals) : Prop where
  uniqueElements : totals.uniqueElements < wordLimit
  uniqueBytes : totals.uniqueBytes < wordLimit
  logicalTensors : totals.logicalTensors < wordLimit
  logicalElements : totals.logicalElements < wordLimit

private theorem countChecked_eq_ok_iff {counter value total : ℕ} {refusal : String} :
    countChecked counter value refusal = .ok total ↔
      counter + value < wordLimit ∧ counter + value = total := by
  rw [countChecked, checkedCount, checkedAdd]
  split_ifs with h
  · exact ⟨fun he => ⟨h, Except.ok.inj he⟩, fun he => congrArg _ he.2⟩
  · exact ⟨(fun he => by cases he), fun he => absurd he.1 h⟩

/-- The segments that are counted. -/
theorem SegmentTotals.visit_eq_ok_iff {totals totals' : SegmentTotals}
    {segment : WeightAllocationSegmentV1} {index : ℕ} :
    totals.visit (segment, index) = .ok totals' ↔
      segment.ValidAt index ∧ (totals.plus segment).InRange ∧ totals.plus segment = totals' := by
  rw [SegmentTotals.visit]
  dsimp only
  rw [Except.ite_error_eq_ok_iff, Except.ite_error_eq_ok_iff, Except.ite_error_eq_ok_iff]
  constructor
  · rintro ⟨hlt, hindex, hzero, hrun⟩
    simp only [not_not] at hlt hindex
    simp only [not_or] at hzero
    obtain ⟨_, h₁, hrun⟩ := Except.bind_eq_ok_iff.1 hrun
    obtain ⟨_, h₂, hrun⟩ := Except.bind_eq_ok_iff.1 hrun
    obtain ⟨_, h₃, hrun⟩ := Except.bind_eq_ok_iff.1 hrun
    obtain ⟨hfit₁, rfl⟩ := countChecked_eq_ok_iff.1 h₁
    obtain ⟨hfit₂, rfl⟩ := countChecked_eq_ok_iff.1 h₂
    obtain ⟨hfit₃, rfl⟩ := countChecked_eq_ok_iff.1 h₃
    cases hmul : checkedMul segment.elements segment.logicalNames.length with
    | none =>
      rw [hmul] at hrun
      exact absurd hrun nofun
    | some references =>
      rw [hmul] at hrun
      obtain ⟨_, h₄, hrun⟩ := Except.bind_eq_ok_iff.1 hrun
      obtain ⟨hfit₄, rfl⟩ := countChecked_eq_ok_iff.1 h₄
      obtain ⟨rfl, -⟩ := checkedMul_eq_some_iff.1 hmul
      exact ⟨⟨hlt, hindex, hzero.1, hzero.2.1, hzero.2.2⟩, ⟨hfit₁, hfit₂, hfit₃, hfit₄⟩,
        Except.ok.inj hrun⟩
  · rintro ⟨hvalid, hfit, rfl⟩
    refine ⟨not_not.2 hvalid.index_lt, not_not.2 hvalid.index_eq,
      fun h => h.elim hvalid.elements fun h => h.elim hvalid.bytes hvalid.names, ?_⟩
    have hreferences : segment.elements * segment.logicalNames.length < wordLimit :=
      Nat.lt_of_le_of_lt (Nat.le_add_left _ _) hfit.logicalElements
    refine Except.bind_eq_ok_iff.2 ⟨_, countChecked_eq_ok_iff.2 ⟨hfit.uniqueElements, rfl⟩, ?_⟩
    refine Except.bind_eq_ok_iff.2 ⟨_, countChecked_eq_ok_iff.2 ⟨hfit.uniqueBytes, rfl⟩, ?_⟩
    refine Except.bind_eq_ok_iff.2 ⟨_, countChecked_eq_ok_iff.2 ⟨hfit.logicalTensors, rfl⟩, ?_⟩
    rw [checkedMul_of_lt hreferences]
    exact Except.bind_eq_ok_iff.2
      ⟨_, countChecked_eq_ok_iff.2 ⟨hfit.logicalElements, rfl⟩, rfl⟩

/-- The totals only grow. -/
private theorem SegmentTotals.InRange.of_plus {totals : SegmentTotals}
    {segment : WeightAllocationSegmentV1} (h : (totals.plus segment).InRange) : totals.InRange :=
  ⟨Nat.lt_of_le_of_lt (Nat.le_add_right _ _) h.uniqueElements,
    Nat.lt_of_le_of_lt (Nat.le_add_right _ _) h.uniqueBytes,
    Nat.lt_of_le_of_lt (Nat.le_add_right _ _) h.logicalTensors,
    Nat.lt_of_le_of_lt (Nat.le_add_right _ _) h.logicalElements⟩

private theorem SegmentTotals.InRange.of_foldl {segments : List WeightAllocationSegmentV1}
    {totals : SegmentTotals} (h : (segments.foldl SegmentTotals.plus totals).InRange) :
    totals.InRange := by
  induction segments generalizing totals with
  | nil => exact h
  | cons segment segments ih => exact (ih h).of_plus

/-- The loop over the segments from an index on. -/
private theorem foldlM_visit_eq_ok_iff (segments : List WeightAllocationSegmentV1) (first : ℕ)
    {totals totals' : SegmentTotals} (hrange : totals.InRange) :
    (segments.zipIdx first).foldlM SegmentTotals.visit totals = .ok totals' ↔
      (∀ (i : ℕ) segment, segments[i]? = some segment →
        WeightAllocationSegmentV1.ValidAt segment (first + i)) ∧
      totals'.InRange ∧ segments.foldl SegmentTotals.plus totals = totals' := by
  induction segments generalizing first totals with
  | nil =>
    refine ⟨fun h => ?_, fun h => congrArg _ h.2.2⟩
    obtain rfl := Except.ok.inj h
    exact ⟨nofun, hrange, rfl⟩
  | cons segment segments ih =>
    rw [List.zipIdx_cons, List.foldlM_cons, Except.bind_eq_ok_iff]
    constructor
    · rintro ⟨_, hvisit, hrest⟩
      obtain ⟨hvalid, hfit, rfl⟩ := SegmentTotals.visit_eq_ok_iff.1 hvisit
      obtain ⟨hvalids, hfits, htotals⟩ := (ih (first + 1) hfit).1 hrest
      refine ⟨fun i other hget => ?_, hfits, htotals⟩
      cases i with
      | zero =>
        obtain rfl := Option.some.inj hget
        exact hvalid
      | succ i =>
        have hlater := hvalids i other hget
        rwa [Nat.add_right_comm] at hlater
    · rintro ⟨hvalids, hfits, rfl⟩
      have hfit : (totals.plus segment).InRange := SegmentTotals.InRange.of_foldl hfits
      refine ⟨_, SegmentTotals.visit_eq_ok_iff.2 ⟨hvalids 0 segment rfl, hfit, rfl⟩,
        (ih (first + 1) hfit).2 ⟨fun i other hget => ?_, hfits, rfl⟩⟩
      have hlater := hvalids (i + 1) other hget
      rwa [← Nat.add_assoc, Nat.add_right_comm] at hlater

/-- The totals of a list of segments. -/
def segmentTotals (segments : List WeightAllocationSegmentV1) : SegmentTotals where
  uniqueElements := (segments.map (·.elements)).sum
  uniqueBytes := (segments.map (·.bytes)).sum
  logicalTensors := (segments.map (·.logicalNames.length)).sum
  logicalElements := (segments.map fun s => s.elements * s.logicalNames.length).sum

private theorem foldl_plus_eq (segments : List WeightAllocationSegmentV1) :
    segments.foldl SegmentTotals.plus SegmentTotals.zero = segmentTotals segments := by
  induction segments using List.reverseRecOn with
  | nil => rfl
  | append_singleton segments segment ih =>
    rw [List.foldl_append, ih, segmentTotals, segmentTotals]
    simp only [List.map_append, List.map_cons, List.map_nil, List.sum_append, List.sum_cons,
      List.sum_nil, Nat.add_zero, List.foldl_cons, List.foldl_nil, SegmentTotals.plus]

/-- A summary whose segments are in order and not empty, and whose totals are those of its
segments. -/
structure WeightAllocationSummaryV1.Reconciled (source : WeightAllocationSummaryV1) : Prop where
  schemaVersion : source.schemaVersion = nnisWeightAllocationSummaryVersion
  allocations : source.segments.length = source.uniqueDeviceAllocations
  segments : ∀ (i : ℕ) segment, source.segments[i]? = some segment →
    WeightAllocationSegmentV1.ValidAt segment i
  inRange : (segmentTotals source.segments).InRange
  totals : segmentTotals source.segments =
    ⟨source.uniqueDeviceElements, source.ownedDeviceAllocationBytes,
      source.logicalTensorReferences, source.logicalElementReferences⟩

/-- The check accepts the summaries whose totals are those of their segments. -/
theorem validateSourceSummary_eq_ok_iff {source : WeightAllocationSummaryV1} :
    validateSourceSummary source = .ok ⟨⟩ ↔ source.Reconciled := by
  have hloop := fun totals => @foldlM_visit_eq_ok_iff source.segments 0 SegmentTotals.zero totals
    ⟨by decide, by decide, by decide, by decide⟩
  simp only [foldl_plus_eq, Nat.zero_add] at hloop
  rw [validateSourceSummary, Except.ite_error_eq_ok_iff, Except.ite_error_eq_ok_iff,
    Except.bind_eq_ok_iff]
  constructor
  · rintro ⟨hversion, hcount, totals, hrun, hcheck⟩
    obtain ⟨hvalid, hrange, rfl⟩ := (hloop totals).1 hrun
    obtain ⟨hsame, -⟩ := Except.ite_error_eq_ok_iff.1 hcheck
    simp only [not_or, not_not] at hversion hcount hsame
    obtain ⟨h₁, h₂, h₃, h₄⟩ := hsame
    refine ⟨hversion, hcount, hvalid, hrange, ?_⟩
    rw [← h₁, ← h₂, ← h₃, ← h₄]
  · intro h
    refine ⟨not_not.2 h.schemaVersion, not_not.2 h.allocations, _,
      (hloop _).2 ⟨h.segments, h.inRange, rfl⟩, ?_⟩
    rw [h.totals, if_neg]
    simp only [ne_eq, not_true_eq_false, or_self, not_false_eq_true]

/-! ### Summaries of observations -/

private theorem map_mapIdx_of_eq {α β γ : Type} {f : ℕ → α → β} {g : β → γ} {h : α → γ}
    (hfg : ∀ i a, g (f i a) = h a) (l : List α) : (l.mapIdx f).map g = l.map h := by
  refine List.ext_getElem? fun i => ?_
  rw [List.getElem?_map, List.getElem?_mapIdx, List.getElem?_map, Option.map_map]
  exact Option.map_congr fun a _ => hfg i a

private theorem mem_allocationGroups {l : List WeightAllocationObservation}
    {group : WeightAllocationObservation × List WeightAllocationObservation}
    (h : group ∈ allocationGroups l) : group.1 ∈ l ∧ group.1 ∈ group.2 ∧
      ∀ o ∈ group.2, o ∈ l ∧ o.allocationKey = group.1.allocationKey := by
  obtain ⟨first, hfirst, rfl⟩ := List.mem_map.1 h
  have hmem := mem_of_mem_firstsBy hfirst
  refine ⟨hmem, List.mem_filter.2 ⟨hmem, decide_eq_true rfl⟩, fun o ho => ?_⟩
  exact ⟨(List.mem_filter.1 ho).1, of_decide_eq_true (List.mem_filter.1 ho).2⟩

/-- The totals of the segments of a list whose aliases agree. -/
theorem segmentTotals_ofGroup {l : List WeightAllocationObservation} (hcoherent : Coherent l) :
    segmentTotals ((allocationGroups l).mapIdx WeightAllocationSegmentV1.ofGroup) =
      ⟨((distinctAllocations l).map (·.elements)).sum, ((distinctAllocations l).map (·.bytes)).sum,
        l.length, (l.map (·.elements)).sum⟩ := by
  have hnames : ((allocationGroups l).map fun group => group.2.length).sum = l.length := by
    have hsum := sum_groupsBy WeightAllocationObservation.allocationKey (fun _ => 1) l
    simpa only [List.map_const', List.sum_replicate, smul_eq_mul, mul_one] using hsum
  have helements : ((allocationGroups l).map fun group =>
      group.1.elements * group.2.length).sum = (l.map (·.elements)).sum := by
    rw [← sum_groupsBy WeightAllocationObservation.allocationKey]
    refine congrArg List.sum (List.map_congr_left fun group hgroup => ?_)
    obtain ⟨hfirst, -, hmembers⟩ := mem_allocationGroups hgroup
    have hsame : group.2.map (·.elements) = List.replicate group.2.length group.1.elements := by
      refine List.eq_replicate_iff.2 ⟨List.length_map _, fun x hx => ?_⟩
      obtain ⟨o, ho, rfl⟩ := List.mem_map.1 hx
      exact (hcoherent o (hmembers o ho).1 group.1 hfirst (hmembers o ho).2).2.1
    rw [hsame, List.sum_replicate, smul_eq_mul, mul_comm]
  have hmap := fun (f : WeightAllocationSegmentV1 → ℕ)
      (g : WeightAllocationObservation × List WeightAllocationObservation → ℕ)
      (hfg : ∀ i group, f (.ofGroup i group) = g group) =>
    map_mapIdx_of_eq hfg (allocationGroups l)
  rw [segmentTotals, SegmentTotals.mk.injEq]
  refine ⟨?_, ?_, ?_, ?_⟩
  · rw [hmap _ (fun group => group.1.elements) fun i group => rfl, allocationGroups, groupsBy,
      List.map_map]
    rfl
  · rw [hmap _ (fun group => group.1.bytes) fun i group => rfl, allocationGroups, groupsBy,
      List.map_map]
    rfl
  · rw [hmap _ (fun group => group.2.length) fun i group => List.length_map _, hnames]
  · rw [hmap _ (fun group => group.1.elements * group.2.length)
      fun i group => congrArg _ (List.length_map _), helements]

/-- A summary of observations with non-zero sizes reconciles. -/
theorem Summarizes.reconciled {l : List WeightAllocationObservation}
    {summary : WeightAllocationSummaryV1} (h : Summarizes l summary) (hcoherent : Coherent l)
    (hwithin : WithinCounters l) (hnonzero : ∀ o ∈ l, o.elements ≠ 0 ∧ o.bytes ≠ 0) :
    summary.Reconciled := by
  have htotals := segmentTotals_ofGroup hcoherent
  rw [← h.segments] at htotals
  have hlength : summary.segments.length = (distinctAllocations l).length := by
    rw [h.segments, List.length_mapIdx, length_groupsBy]
  refine ⟨h.schemaVersion, hlength.trans h.allocations.symm, fun i segment hget => ?_, ?_, ?_⟩
  · have hi : i < summary.segments.length := (List.getElem?_eq_some_iff.1 hget).1
    rw [h.segments, List.getElem?_mapIdx, Option.map_eq_some_iff] at hget
    obtain ⟨group, hgroup, rfl⟩ := hget
    obtain ⟨hfirst, hself, -⟩ := mem_allocationGroups (List.mem_of_getElem? hgroup)
    exact
      { index_lt := by
          have hallocations := hwithin.allocations
          omega
        index_eq := rfl
        elements := (hnonzero _ hfirst).1
        bytes := (hnonzero _ hfirst).2
        names := List.ne_nil_of_mem (List.mem_map_of_mem hself) }
  · rw [htotals]
    exact ⟨hwithin.uniqueElements, hwithin.ownedBytes, hwithin.references, hwithin.elements⟩
  · rw [htotals, h.uniqueElements, h.ownedBytes, h.references, h.elements]

/-- The segment of a key: its place, its size and kind, and all of its names in order. -/
structure WeightAllocationSegmentV1.Describes (segment : WeightAllocationSegmentV1)
    (l : List WeightAllocationObservation) (index k : ℕ) : Prop where
  index : segment.allocationIndex = index
  names : segment.logicalNames = (l.filter fun o => o.allocationKey = k).map (·.logicalName)
  agrees : ∀ o ∈ l, o.allocationKey = k →
    o.dtype = segment.dtype ∧ o.elements = segment.elements ∧ o.bytes = segment.bytes

private theorem Summarizes.describes {l : List WeightAllocationObservation}
    {summary : WeightAllocationSummaryV1} (h : Summarizes l summary) (hcoherent : Coherent l)
    {i k : ℕ} (hk : (keysBy WeightAllocationObservation.allocationKey l)[i]? = some k) :
    ∃ segment : WeightAllocationSegmentV1,
      summary.segments[i]? = some segment ∧ segment.Describes l i k := by
  rw [keysBy, List.getElem?_map, Option.map_eq_some_iff] at hk
  obtain ⟨first, hfirst, rfl⟩ := hk
  have hmem := mem_of_mem_firstsBy (List.mem_of_getElem? hfirst)
  refine ⟨.ofGroup i (first, l.filter fun o => o.allocationKey = first.allocationKey), ?_, rfl, rfl,
    fun o ho hkey => hcoherent o ho first hmem hkey⟩
  rw [h.segments, List.getElem?_mapIdx, getElem?_groupsBy, hfirst]
  rfl

private theorem Summarizes.perm_names {l : List WeightAllocationObservation}
    {summary : WeightAllocationSummaryV1} (h : Summarizes l summary) :
    (summary.segments.flatMap (·.logicalNames)).Perm (l.map (·.logicalName)) := by
  have hgroups := (perm_flatMap_groupsBy WeightAllocationObservation.allocationKey l).map
    (·.logicalName)
  rw [List.map_flatMap, List.flatMap_def] at hgroups
  have hnames : ∀ i group, (WeightAllocationSegmentV1.ofGroup i group).logicalNames =
      group.2.map (·.logicalName) := fun _ _ => rfl
  rwa [h.segments, List.flatMap_def, map_mapIdx_of_eq hnames]

/-- The accounting succeeds exactly when aliases agree and every total fits. Its segments are the
distinct keys in the order in which they are first met, they share out the names, its totals are
sums over the keys and over the observations, and the check of a summary accepts it. -/
theorem summarizeWeightAllocations_correct (l : List WeightAllocationObservation) :
    ((∃ summary, summarizeWeightAllocations l = .ok summary) ↔ Coherent l ∧ WithinCounters l) ∧
    ∀ summary, summarizeWeightAllocations l = .ok summary →
      ((keysBy WeightAllocationObservation.allocationKey l).Nodup ∧
        (∀ k, k ∈ keysBy WeightAllocationObservation.allocationKey l ↔
          ∃ o ∈ l, o.allocationKey = k) ∧
        (distinctAllocations l).Sublist l ∧
        (∀ first ∈ distinctAllocations l,
          l.find? (fun o => o.allocationKey = first.allocationKey) = some first) ∧
        summary.segments.length = (keysBy WeightAllocationObservation.allocationKey l).length ∧
        ∀ i k, (keysBy WeightAllocationObservation.allocationKey l)[i]? = some k →
          ∃ segment : WeightAllocationSegmentV1,
            summary.segments[i]? = some segment ∧ segment.Describes l i k) ∧
      (summary.segments.flatMap (·.logicalNames)).Perm (l.map (·.logicalName)) ∧
      (summary.uniqueDeviceAllocations = (distinctAllocations l).length ∧
        summary.uniqueDeviceElements = ((distinctAllocations l).map (·.elements)).sum ∧
        summary.ownedDeviceAllocationBytes = ((distinctAllocations l).map (·.bytes)).sum) ∧
      (summary.logicalTensorReferences = l.length ∧
        summary.logicalElementReferences = (l.map (·.elements)).sum) ∧
      (l ≠ [] → (∀ o ∈ l, o.elements ≠ 0 ∧ o.bytes ≠ 0) →
        validateSourceSummary summary = .ok ⟨⟩) := by
  refine ⟨summarizeWeightAllocations_eq_ok_iff l, fun summary hok => ?_⟩
  obtain ⟨⟨hcoherent, hwithin⟩, h⟩ := (summarizeWeightAllocations_meets l).of_ok hok
  refine ⟨⟨nodup_keysBy _ l, fun k => ?_, firstsBy_sublist _ l,
    fun first hfirst => find?_of_mem_firstsBy hfirst, ?_, fun i k hk => h.describes hcoherent hk⟩,
    h.perm_names, ⟨h.allocations, h.uniqueElements, h.ownedBytes⟩, ⟨h.references, h.elements⟩,
    fun _ hnonzero => ?_⟩
  · rw [mem_keysBy_iff, List.mem_map]
  · rw [h.segments, List.length_mapIdx, length_groupsBy, length_keysBy]
  · exact validateSourceSummary_eq_ok_iff.2 (h.reconciled hcoherent hwithin hnonzero)

end NNIS
