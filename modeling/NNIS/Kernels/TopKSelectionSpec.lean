import NNIS.Kernels.TopK
import NNIS.Model.SamplingSpec

/-!
# What the selection returns

A scan of the masked copy selects the element that is ranked next, as long as there is one above
negative infinity, the value of the mask. After that all elements of the copy compare equal, and
every scan selects the first one. So the selection is a beginning of the order of the input if and
only if it ends before the second element that the mask hides. A launch that is refused ends the
selection early, after safe passes.

## Main definitions

* `SortedPrefix` — a beginning of the order of an input.
* `F32TopK.aboveMask`, `F32TopK.masked`, `F32TopK.selected`.
* `F32TopK.Selecting` — the invariant of the rounds.

## Main results

* `F32TopK.enqueueTopK_spec` — the outputs in closed form, or the refusal of a launch.
* `F32TopK.enqueueTopK_correct` — when they are a beginning of the order.
-/

set_option autoImplicit false

namespace NNIS

open TreePasses (Device Pass Slot)

/-- Values and indices that begin the order of an input. -/
def SortedPrefix (input : List F32) (values : List F32) (indices : List UInt32) : Prop :=
  ∃ order, Ranking input order ∧ indices.map UInt32.toNat = order.take indices.length ∧
    values = (order.take indices.length).map fun i => input.getD i (.zero false)

namespace F32TopK

/-- The number of elements above the value of the mask. -/
def aboveMask (input : List F32) : ℕ := input.countP fun x => decide (x ≠ .infinite true)

/-- The copy after some winners have been masked. -/
def masked (input : List F32) (order : List ℕ) (masks : ℕ) : List F32 :=
  (List.range input.length).map fun i =>
    if i ∈ order.take masks then .infinite true else input.getD i (.zero false)

/-- The element that a round selects. -/
def selected (input : List F32) (order : List ℕ) (round : ℕ) : ℕ :=
  if round < aboveMask input then order.getD round 0 else 0

/-! ### The order and the mask -/

section Order

variable {input : List F32} {order : List ℕ}

theorem length_order (h : Ranking input order) : order.length = input.length := by
  rw [h.perm.length_eq, List.length_range]

theorem nodup_order (h : Ranking input order) : order.Nodup :=
  h.perm.nodup_iff.2 List.nodup_range

theorem infinite_lt_key {x : F32} (hx : x.isNaN = false) (hne : x ≠ .infinite true) :
    (Binary.infinite true : F32).key < x.key :=
  lt_of_le_of_ne (Binary.key_infinite_le hx) fun h => hne (Binary.eq_infinite_of_key h.symm)

/-- An element of a list is among the first that satisfy a predicate, when no element before one
that satisfies it does not. -/
private theorem getElem_iff_lt_countP {α : Type} {above : α → Bool} {l : List α}
    (h : l.Pairwise fun a b => above b = true → above a = true) {r : ℕ} (hr : r < l.length) :
    above l[r] = true ↔ r < l.countP above := by
  induction l generalizing r with
  | nil => exact absurd hr (Nat.not_lt_zero r)
  | cons a l ih =>
    obtain ⟨hfirst, hrest⟩ := List.pairwise_cons.1 h
    by_cases ha : above a = true
    · rw [List.countP_cons_of_pos ha]
      cases r with
      | zero => simp [ha]
      | succ r =>
        rw [List.getElem_cons_succ, ih hrest (Nat.lt_of_succ_lt_succ hr), Nat.succ_lt_succ_iff]
    · have hnone : ∀ b ∈ a :: l, ¬ above b = true := by
        intro b hb
        rcases List.mem_cons.1 hb with rfl | hb
        · exact ha
        · exact fun habove => ha (hfirst b hb habove)
      rw [List.countP_eq_zero.2 hnone]
      exact iff_of_false (hnone _ (List.getElem_mem hr)) (Nat.not_lt_zero r)

/-- The elements above the mask begin the order. -/
theorem ne_infinite_iff (h : Ranking input order) (hnumber : ∀ x ∈ input, x.isNaN = false) {r : ℕ}
    (hr : r < input.length) :
    input.getD (order.getD r 0) (.zero false) ≠ .infinite true ↔ r < aboveMask input := by
  let above (i : ℕ) : Bool := decide (input.getD i (.zero false) ≠ .infinite true)
  have hcount : order.countP above = aboveMask input := by
    have hinput : (List.range input.length).map (fun i => input.getD i (.zero false)) = input := by
      refine List.ext_getElem (by simp) fun i hi hi' => ?_
      rw [List.getElem_map, List.getElem_range, List.getD_eq_getElem _ _ hi']
    rw [h.perm.countP_eq, aboveMask, ← hinput, List.countP_map, hinput]
    rfl
  have hpairwise : order.Pairwise fun s t => above t = true → above s = true := by
    refine h.sorted.imp fun {s t} hranked => ?_
    simp only [above, decide_eq_true_eq]
    intro ht hs
    have hlt := infinite_lt_key (getD_isNaN hnumber t) ht
    simp only [RankedBefore, hs] at hranked
    omega
  have hr' : r < order.length := (length_order h).symm ▸ hr
  rw [List.getD_eq_getElem _ _ hr', ← hcount, ← getElem_iff_lt_countP hpairwise hr',
    decide_eq_true_eq]

@[simp] theorem length_masked (input : List F32) (order : List ℕ) (masks : ℕ) :
    (masked input order masks).length = input.length := by
  simp [masked]

theorem masked_zero (input : List F32) (order : List ℕ) : masked input order 0 = input := by
  refine List.ext_getElem (by simp) fun i hi hi' => ?_
  simp only [masked, List.getElem_map, List.getElem_range, List.take_zero, List.not_mem_nil,
    if_false]
  exact List.getD_eq_getElem _ _ hi'

private theorem getD_masked (masks : ℕ) {i : ℕ} (hi : i < input.length) :
    (masked input order masks).getD i (.zero false) =
      if i ∈ order.take masks then .infinite true else input.getD i (.zero false) := by
  have hi' : i < (masked input order masks).length := by simpa using hi
  rw [List.getD_eq_getElem _ _ hi']
  simp only [masked, List.getElem_map, List.getElem_range]

/-- The round of an element of the input in the order. -/
private theorem exists_round (h : Ranking input order) {i : ℕ} (hi : i < input.length) :
    ∃ s < input.length, order.getD s 0 = i := by
  obtain ⟨s, hs, rfl⟩ := List.mem_iff_getElem.1 (h.perm.mem_iff.2 (List.mem_range.2 hi))
  exact ⟨s, length_order h ▸ hs, List.getD_eq_getElem _ _ hs⟩

private theorem getD_order_lt (h : Ranking input order) {r : ℕ} (hr : r < input.length) :
    order.getD r 0 < input.length := by
  have hr' : r < order.length := (length_order h).symm ▸ hr
  rw [List.getD_eq_getElem _ _ hr']
  exact List.mem_range.1 (h.perm.mem_iff.1 (List.getElem_mem hr'))

/-- The elements that are masked are those of earlier rounds. -/
private theorem getD_order_mem (h : Ranking input order) {s : ℕ} (hs : s < input.length)
    (masks : ℕ) : order.getD s 0 ∈ order.take masks ↔ s < masks := by
  have hs' : s < order.length := (length_order h).symm ▸ hs
  rw [List.getD_eq_getElem _ _ hs', List.mem_take_iff_getElem]
  constructor
  · rintro ⟨t, ht, heq⟩
    rw [(nodup_order h).getElem_inj_iff] at heq
    omega
  · exact fun hlt => ⟨s, by omega, rfl⟩

private theorem getD_order_inj (h : Ranking input order) {s t : ℕ} (hs : s < input.length)
    (ht : t < input.length) (heq : order.getD s 0 = order.getD t 0) : s = t := by
  have hmem := (getD_order_mem h hs (t + 1)).1 (heq ▸ (getD_order_mem h ht _).2 t.lt_succ_self)
  have hmem' := (getD_order_mem h ht (s + 1)).1 (heq ▸ (getD_order_mem h hs _).2 s.lt_succ_self)
  omega

/-- When the elements above the mask have been masked, all elements are the mask. -/
theorem masked_eq_replicate (h : Ranking input order) (hnumber : ∀ x ∈ input, x.isNaN = false)
    {masks : ℕ} (hmasks : aboveMask input ≤ masks) :
    masked input order masks = List.replicate input.length (.infinite true) := by
  refine List.eq_replicate_iff.2 ⟨length_masked .., fun x hx => ?_⟩
  obtain ⟨i, hi, rfl⟩ := List.mem_map.1 hx
  obtain ⟨s, hs, rfl⟩ := exists_round h (List.mem_range.1 hi)
  simp only [getD_order_mem h hs]
  split_ifs with hlt
  · rfl
  · by_contra hne
    have habove := (ne_infinite_iff h hnumber hs).1 hne
    omega

theorem selected_lt (h : Ranking input order) {r : ℕ} (hr : r < input.length) :
    selected input order r < input.length := by
  rw [selected]
  split_ifs
  · exact getD_order_lt h hr
  · omega

/-- A round selects the element that the order of the copy begins with. -/
theorem selected_ranked (h : Ranking input order) (hnumber : ∀ x ∈ input, x.isNaN = false) {r : ℕ}
    (hr : r < input.length) {i : ℕ} (hi : i < input.length) (hne : i ≠ selected input order r) :
    RankedBefore (masked input order r) (selected input order r) i := by
  have hselected := selected_lt h hr
  rcases Nat.lt_or_ge r (aboveMask input) with habove | hbelow
  · rw [selected, if_pos habove] at hne hselected ⊢
    have hsame : ¬ order.getD r 0 ∈ order.take r := by
      rw [getD_order_mem h hr]
      exact Nat.lt_irrefl r
    simp only [RankedBefore, getD_masked r hi, getD_masked r hselected, if_neg hsame]
    obtain ⟨s, hs, rfl⟩ := exists_round h hi
    split_ifs with hmasked
    · exact .inl (infinite_lt_key (getD_isNaN hnumber _) ((ne_infinite_iff h hnumber hr).2 habove))
    · rw [getD_order_mem h hs] at hmasked
      have hlt : r < s := by
        refine lt_of_le_of_ne (Nat.le_of_not_lt hmasked) ?_
        rintro rfl
        exact hne rfl
      have hs' : s < order.length := (length_order h).symm ▸ hs
      have hranked := List.pairwise_iff_getElem.1 h.sorted r s (hlt.trans hs') hs' hlt
      rwa [← List.getD_eq_getElem _ 0, ← List.getD_eq_getElem _ 0] at hranked
  · have hzero : selected input order r = 0 := if_neg (Nat.not_lt.2 hbelow)
    rw [hzero] at hne ⊢
    simp only [RankedBefore, masked_eq_replicate h hnumber hbelow]
    rw [List.getD_replicate _ hi, List.getD_replicate _ (by omega)]
    exact .inr ⟨rfl, Nat.pos_of_ne_zero hne⟩

/-- Masking the winner of a round. -/
theorem set_masked (h : Ranking input order) (hnumber : ∀ x ∈ input, x.isNaN = false) {r : ℕ}
    (hr : r < input.length) :
    (masked input order r).set (selected input order r) (.infinite true) =
      masked input order (r + 1) := by
  rcases Nat.lt_or_ge r (aboveMask input) with habove | hbelow
  · rw [selected, if_pos habove]
    refine List.ext_getElem (by simp) fun i hi hi' => ?_
    rw [length_masked] at hi'
    obtain ⟨s, hs, rfl⟩ := exists_round h hi'
    simp only [List.getElem_set, masked, List.getElem_map, List.getElem_range, getD_order_mem h hs]
    by_cases hsr : s = r
    · simp [hsr]
    · have hne : order.getD r 0 ≠ order.getD s 0 := fun heq =>
        hsr (getD_order_inj h hs hr heq.symm)
      rw [if_neg hne]
      congr 1
      simp only [eq_iff_iff]
      omega
  · rw [masked_eq_replicate h hnumber hbelow,
      masked_eq_replicate h hnumber (hbelow.trans r.le_succ), List.set_replicate_self]

end Order

/-! ### Scans -/

theorem length_scored (l : List F32) : (scored l).length = l.length := by
  simp [scored]

theorem take_scored {l : List F32} {n : ℕ} (hn : n ≤ l.length) :
    (scored l).take n = scored (l.take n) := by
  refine List.ext_getElem (by simp [length_scored]) fun i hi hi' => ?_
  have hi : i < n := by
    rw [length_scored, List.length_take] at hi'
    omega
  simp only [scored, List.getElem_take, List.getElem_map, List.getElem_range]
  rw [List.getD_eq_getElem _ _ (by omega), List.getD_eq_getElem _ _ (by simp; omega),
    List.getElem_take]

/-- A scan of numbers returns the element before which every other one is ranked. -/
theorem reduce_scored {l : List F32} {i : ℕ} (e : ℕ) (hnumber : ∀ x ∈ l, x.isNaN = false)
    (hlength : l.length < u32Limit) (hi : i < l.length)
    (hranked : ∀ j < l.length, j ≠ i → RankedBefore l i j) :
    TreeReduction.reduce prefer sentinel (2 ^ e) (scored l) =
      some ⟨l.getD i (.zero false), UInt32.ofNat i⟩ := by
  have hlast : i < sentinel.index.toNat := by
    have hsize : sentinel.index.toNat = u32Limit - 1 := rfl
    omega
  exact prefersRanked_better.reduce_eq (fun _ _ => rfl) hnumber (fun _ => rfl)
    (fun j hj => UInt32.toNat_ofNat_of_lt' (hj.trans hlength)) hi hranked rfl
    (pairRanked_infinite (getD_isNaN hnumber i) hlast) e

/-! ### Rounds -/

variable (topK : F32TopK)

/-- The capacity of the buffers of pairs of a workspace for up to a number of elements. -/
def slots (maxElements : ℕ) : ℕ := maxElements ⌈/⌉ (topK.blockSize * 2)

/-- The capacities of the buffers of a scan. Its output is one position. -/
def capacity (maxElements : ℕ) : Slot → ℕ
  | .input => maxElements
  | .scratchA => topK.slots maxElements
  | .scratchB => topK.slots maxElements
  | .output => 1

/-- Buffers of a workspace for up to a number of elements and outputs of a selection. -/
structure Sized (maxElements k : ℕ) (device : TopKDevice) : Prop where
  data : device.data.length = maxElements
  pairsA : device.pairsA.length = topK.slots maxElements
  pairsB : device.pairsB.length = topK.slots maxElements
  values : device.values.length = k
  indices : device.indices.length = k
  safe : ∀ p ∈ device.passes, p.Safe (topK.capacity maxElements)

/-- The launches of a selection from an input have no longer grid than the copy of it. -/
def Launched (input : List F32) (work : StreamWork) : Prop :=
  work.blocks ≤ input.length ⌈/⌉ topK.blockSize

/-- The buffers when a launch has been refused. -/
structure Stopped (stream : LaunchQueue NnisError StreamWork) (input : List F32) (maxElements k : ℕ)
    (e : NnisError) (device : TopKDevice) : Prop extends topK.Sized maxElements k device where
  refused : LaunchQueue.Refused (topK.Launched input) stream e device.stream

/-- The buffers after some rounds and masks, on the driver of a stream. -/
structure Selecting (stream : LaunchQueue NnisError StreamWork) (input : List F32) (order : List ℕ)
    (maxElements k masks rounds : ℕ) (device : TopKDevice) : Prop
    extends topK.Sized maxElements k device where
  refusal_eq : device.stream.refusal = stream.refusal
  copy : device.data.take input.length = masked input order masks
  value_eq : ∀ r < rounds, device.values[r]? =
    some ((masked input order r).getD (selected input order r) (.zero false))
  index_eq : ∀ r < rounds, device.indices[r]? = some (UInt32.ofNat (selected input order r))

section Rounds

variable {topK} {stream : LaunchQueue NnisError StreamWork} {input : List F32} {order : List ℕ}
  {maxElements k : ℕ}

theorem span_pos : 0 < topK.blockSize * 2 := by
  obtain ⟨e, he⟩ := topK.isPowerOfTwo
  rw [he]
  exact Nat.mul_pos (Nat.two_pow_pos e) Nat.two_pos

private theorem partialCount_eq (elements : ℕ) :
    partialCount topK.blockSize elements = .ok (elements ⌈/⌉ (topK.blockSize * 2)) := by
  have hlt := topK.sharedMemory_lt
  refine NNIS.partialCount_eq ?_ elements
  rw [u32Limit] at hlt
  rw [wordLimit]
  omega

private theorem blockSize_pos : 0 < topK.blockSize := Nat.pos_of_mul_pos_right span_pos

/-- A copy needs at most as many blocks as there are elements. -/
private theorem fill_le (n : ℕ) : n ⌈/⌉ topK.blockSize ≤ n :=
  (ceilDiv_le_iff_le_mul blockSize_pos).2 (Nat.le_mul_of_pos_left _ blockSize_pos)

/-- A pass needs at most as many blocks as a copy. -/
private theorem scan_le (n : ℕ) : n ⌈/⌉ (topK.blockSize * 2) ≤ n ⌈/⌉ topK.blockSize := by
  rw [ceilDiv_le_iff_le_mul span_pos]
  refine ((ceilDiv_le_iff_le_mul blockSize_pos).1 le_rfl).trans (Nat.mul_le_mul_right _ ?_)
  omega

/-- A launch of a selection is accepted or stops it. -/
theorem launch_spec {I : TopKDevice → Prop} {gridSize blockSize bytes : ℕ}
    (hgrid : gridSize ≤ input.length ⌈/⌉ topK.blockSize)
    (hI : ∀ device, I device → topK.Sized maxElements k device ∧
      device.stream.refusal = stream.refusal)
    (hstream : ∀ device s, I device → s.refusal = stream.refusal → I (device.withStream s)) :
    Fallible.Spec I (TopKDevice.launch gridSize blockSize bytes) (fun _ => I)
      (topK.Stopped stream input maxElements k) := by
  refine Fallible.Spec.of_forall fun device h => ?_
  obtain ⟨hsized, hrefusal⟩ := hI device h
  have hsubmit : Fallible.Spec (fun s => s.refusal = stream.refusal)
      (LaunchQueue.submit (.launch gridSize blockSize bytes))
        (fun _ s => s.refusal = stream.refusal)
      (LaunchQueue.Refused (topK.Launched input) stream) := stream.submit_spec hgrid
  refine (hsubmit.zoom device).conseq (fun s hs => ⟨hs, hs ▸ hrefusal⟩) (fun _ s hs => ?_)
    fun e s hs => ?_
  · obtain ⟨t, ht, rfl⟩ := hs
    exact hstream device t h ht
  · obtain ⟨t, ht, rfl⟩ := hs
    exact ⟨⟨hsized.data, hsized.pairsA, hsized.pairsB, hsized.values, hsized.indices,
      hsized.safe⟩, ht⟩

private theorem view_capacity {device : TopKDevice} (h : topK.Sized maxElements k device) {r : ℕ}
    (hr : r < k) (slot : Slot) :
    ((device.view r).buffer slot).length = topK.capacity maxElements slot := by
  have hvalues : r < device.values.length := h.values.symm ▸ hr
  have hindices : r < device.indices.length := h.indices.symm ▸ hr
  cases slot with
  | input => exact (length_scored _).trans h.data
  | scratchA => exact h.pairsA
  | scratchB => exact h.pairsB
  | output => simp [TopKDevice.view, hvalues, hindices, capacity]

/-- A scan that has ended, or has been stopped, leaves the buffers of the selection sized. -/
private theorem sized_update {device : TopKDevice} (h : topK.Sized maxElements k device) {r : ℕ}
    (hr : r < k) {scan : F32Reduction.ReductionDevice Scored}
    (hscan : TreePasses.Since (device.view r) scan) :
    topK.Sized maxElements k (TopKDevice.update r scan device) := by
  have hcapacity := view_capacity h hr
  have hlengths (slot : Slot) : (scan.buffer slot).length = topK.capacity maxElements slot :=
    (hscan.capacity_eq slot).trans (hcapacity slot)
  obtain ⟨pair, hpair⟩ := List.length_eq_one_iff.1 (hlengths .output)
  obtain ⟨more, hmore, hsafe⟩ := hscan.passes_eq
  refine ⟨h.data, hlengths .scratchA, hlengths .scratchB, ?_, ?_, fun p hp => ?_⟩
  · simp only [TopKDevice.update, hpair, List.head?_cons, Option.elim_some,
      List.length_set, h.values]
  · simp only [TopKDevice.update, hpair, List.head?_cons, Option.elim_some, List.length_set,
      h.indices]
  · change p ∈ scan.passes at hp
    rw [hmore] at hp
    rcases List.mem_append.1 hp with hp | hp
    · exact h.safe p hp
    · have hsame : (fun slot => ((device.view r).buffer slot).length) =
          topK.capacity maxElements := by
        ext slot
        exact hcapacity slot
      exact hsame ▸ hsafe p hp

/-- A round writes the element that it selects. -/
theorem enqueueRound_spec (horder : Ranking input order) (hnumber : ∀ x ∈ input, x.isNaN = false)
    (hlength : input.length < u32Limit) (hmax : input.length ≤ maxElements)
    (hk : k ≤ input.length) {r : ℕ} (hr : r < k) :
    Fallible.Spec (topK.Selecting stream input order maxElements k r r)
      (topK.enqueueRound input.length r)
      (fun _ => topK.Selecting stream input order maxElements k r (r + 1))
      (topK.Stopped stream input maxElements k) := by
  intro device h
  have hcapacity := view_capacity h.toSized hr
  have hrange : r < input.length := hr.trans_le hk
  have hslots : input.length ⌈/⌉ (topK.blockSize * 2) ≤ topK.slots maxElements :=
    TreePasses.ceilDiv_mono span_pos hmax
  have hfits : TreePasses.Fits topK.blockSize input.length (device.view r) := by
    refine ⟨?_, ?_, ?_, ?_⟩ <;> rw [hcapacity]
    · exact hmax
    · exact hslots
    · exact hslots
    · exact Nat.one_pos
  -- The scan reads the masked copy.
  have hcopy : ((device.view r).buffer .input).take input.length =
      scored (masked input order r) := by
    rw [← h.copy]
    exact take_scored (h.data.symm ▸ hmax)
  obtain ⟨e, he⟩ := topK.isPowerOfTwo
  have hmasked : ∀ x ∈ masked input order r, x.isNaN = false := by
    intro x hx
    obtain ⟨i, -, rfl⟩ := List.mem_map.1 hx
    split_ifs
    · rfl
    · exact getD_isNaN hnumber i
  have hreduce := reduce_scored (i := selected input order r) e hmasked
    (by rwa [length_masked]) (by simpa using selected_lt horder hrange)
    (fun i hi hne => selected_ranked horder hnumber hrange (by simpa using hi) hne)
  rw [← hcopy] at hreduce
  -- No pass needs more blocks than the copy.
  have hsubmit (p : Pass) (hp : p.Reduces topK.blockSize input.length) :
      Fallible.Spec (fun s => s.refusal = stream.refusal) (topK.enqueueScan p)
        (fun _ s => s.refusal = stream.refusal)
        (LaunchQueue.Refused (topK.Launched input) stream) := by
    have hle : p.outputs ≤ input.length ⌈/⌉ topK.blockSize := hp.outputs_le.trans (scan_le _)
    have hlt : ¬ u32Limit ≤ p.outputs :=
      Nat.not_le.2 ((hle.trans (fill_le _)).trans_lt hlength)
    have hconfig : topK.scanConfig p.elements =
        .ok (.launch p.outputs topK.blockSize (topK.blockSize * 8)) := by
      rw [scanConfig, partialCount_eq, ← hp.outputs_eq]
      exact if_neg hlt
    rw [enqueueScan, hconfig, Fallible.ofExcept_ok_bind]
    exact stream.submit_spec hle
  have hcount (m : ℕ) : partialCount topK.blockSize m = .ok (m ⌈/⌉ (topK.blockSize * 2)) :=
    partialCount_eq m
  rw [he] at hfits hsubmit hcount
  have hspec := TreePasses.run_spec e F32Reduction.unfinished (Nat.zero_lt_of_lt hrange) hfits
    (fun m _ _ => hcount m) h.refusal_eq (fun p hp _ => hsubmit p hp) hreduce
  rw [← he] at hspec
  rw [enqueueRound, Fallible.run_zoom]
  rcases hrun : (TreePasses.run prefer sentinel topK.blockSize (partialCount topK.blockSize)
    topK.enqueueScan F32Reduction.unfinished input.length).run (device.view r) with ⟨e | _, scan⟩
  · obtain ⟨hscan, hrefused⟩ := hspec.error rfl hrun
    exact ⟨sized_update h.toSized hr hscan, hrefused⟩
  obtain ⟨hscan, hrefusal⟩ := hspec.ok rfl hrun
  -- The output of the scan is one position.
  have houtput : scan.buffer .output =
      [⟨(masked input order r).getD (selected input order r) (.zero false),
        UInt32.ofNat (selected input order r)⟩] := by
    obtain ⟨pair, hpair⟩ := List.length_eq_one_iff.1 (hcapacity .output)
    rw [hscan.output_eq, hpair]
    rfl
  have hvalues : (TopKDevice.update r scan device).values = device.values.set r
      ((masked input order r).getD (selected input order r) (.zero false)) := by
    simp only [TopKDevice.update, houtput]
    rfl
  have hindices : (TopKDevice.update r scan device).indices =
      device.indices.set r (UInt32.ofNat (selected input order r)) := by
    simp only [TopKDevice.update, houtput]
    rfl
  refine ⟨sized_update h.toSized hr hscan.toSince, hrefusal, h.copy, fun t ht => ?_, fun t ht => ?_⟩
  · rw [hvalues, List.getElem?_set]
    by_cases htr : r = t
    · simp [htr ▸ hr, h.values, htr]
    · simp [htr, h.value_eq t (by omega)]
  · rw [hindices, List.getElem?_set]
    by_cases htr : r = t
    · simp [htr ▸ hr, h.indices, htr]
    · simp [htr, h.index_eq t (by omega)]

private theorem selecting_launch {masks rounds gridSize blockSize bytes : ℕ}
    (hgrid : gridSize ≤ input.length ⌈/⌉ topK.blockSize) :
    Fallible.Spec (topK.Selecting stream input order maxElements k masks rounds)
      (TopKDevice.launch gridSize blockSize bytes)
      (fun _ => topK.Selecting stream input order maxElements k masks rounds)
      (topK.Stopped stream input maxElements k) :=
  launch_spec hgrid (fun _ h => ⟨h.toSized, h.refusal_eq⟩) fun _ _ h hs =>
    ⟨⟨h.data, h.pairsA, h.pairsB, h.values, h.indices, h.safe⟩, hs, h.copy, h.value_eq, h.index_eq⟩

/-- A mask hides the element that the round has selected. -/
theorem enqueueMask_spec (horder : Ranking input order) (hnumber : ∀ x ∈ input, x.isNaN = false)
    (hlength : input.length < u32Limit) (hk : k ≤ input.length) {r : ℕ} (hr : r < k) :
    Fallible.Spec (topK.Selecting stream input order maxElements k r (r + 1)) (enqueueMask r)
      (fun _ => topK.Selecting stream input order maxElements k (r + 1) (r + 1))
      (topK.Stopped stream input maxElements k) := by
  have hrange : r < input.length := hr.trans_le hk
  have hone : 1 ≤ input.length ⌈/⌉ topK.blockSize :=
    TreePasses.ceilDiv_pos blockSize_pos (Nat.zero_lt_of_lt hrange)
  refine (selecting_launch hone).bind fun _ => Fallible.Spec.modify _ fun device h => ?_
  have hslot : (device.indices.getD r 0).toNat = selected input order r := by
    rw [List.getD_eq_getElem?_getD, h.index_eq r r.lt_succ_self, Option.getD_some]
    exact UInt32.toNat_ofNat_of_lt' ((selected_lt horder hrange).trans hlength)
  refine ⟨⟨?_, h.pairsA, h.pairsB, h.values, h.indices, h.safe⟩, h.refusal_eq, ?_, h.value_eq,
    h.index_eq⟩
  · exact List.length_set.trans h.data
  · simp only [hslot]
    rw [List.take_set, h.copy, set_masked horder hnumber hrange]

/-- The copy of the input, before any round. -/
theorem enqueueFill_spec (hlength : input.length < u32Limit) (hmax : input.length ≤ maxElements) :
    Fallible.Spec
      (fun device => topK.Sized maxElements k device ∧ device.stream.refusal = stream.refusal)
      (topK.enqueueFill input)
      (fun _ => topK.Selecting stream input order maxElements k 0 0)
      (topK.Stopped stream input maxElements k) := by
  have hgrid : ¬ u32Limit ≤ input.length ⌈/⌉ topK.blockSize :=
    Nat.not_le.2 ((fill_le _).trans_lt hlength)
  rw [enqueueFill, if_neg hgrid]
  refine (launch_spec le_rfl (fun _ h => h) fun _ _ h hs => ⟨⟨h.1.data, h.1.pairsA, h.1.pairsB,
    h.1.values, h.1.indices, h.1.safe⟩, hs⟩).bind fun _ => Fallible.Spec.modify _ fun device h => ?_
  obtain ⟨h, hrefusal⟩ := h
  have hfits : input.length ≤ device.data.length := h.data.symm ▸ hmax
  refine ⟨⟨?_, h.pairsA, h.pairsB, h.values, h.indices, h.safe⟩, hrefusal, ?_, nofun, nofun⟩
  · exact (TreePasses.length_overwrite hfits).trans h.data
  · exact (TreePasses.take_overwrite _ _).trans (masked_zero input order).symm

theorem validateExecution_eq_ok (hpos : 0 < k) (hk : k ≤ input.length)
    (hlength : input.length < u32Limit) (hmax : input.length ≤ maxElements) :
    topK.validateExecution input.length k k k (topK.workspace maxElements) = .ok ⟨⟩ := by
  rw [validateExecution, workspace, if_neg hpos.ne', if_neg (Nat.not_lt.2 hk),
    if_neg (Nat.not_le.2 hlength), if_neg (by simp), if_neg (Nat.not_lt.2 hmax), if_neg (by simp)]

/-- What a selection has returned: the elements that its rounds select. -/
structure Chosen (input : List F32) (order : List ℕ) (maxElements k : ℕ) (device : TopKDevice) :
    Prop extends topK.Sized maxElements k device where
  values_eq : device.values = (List.range k).map fun r =>
    (masked input order r).getD (selected input order r) (.zero false)
  indices_eq : device.indices = (List.range k).map fun r => UInt32.ofNat (selected input order r)

/-- Whatever the driver answers, a selection returns the elements that its rounds select, or it is
stopped by a refused launch. -/
theorem enqueueTopK_spec (horder : Ranking input order) (hnumber : ∀ x ∈ input, x.isNaN = false)
    (hpos : 0 < k) (hk : k ≤ input.length) (hlength : input.length < u32Limit)
    (hmax : input.length ≤ maxElements) :
    Fallible.Spec
      (fun device => topK.Sized maxElements k device ∧ device.stream.refusal = stream.refusal)
      (topK.enqueueTopK input k (topK.workspace maxElements))
      (fun _ => topK.Chosen input order maxElements k)
        (topK.Stopped stream input maxElements k) := by
  let masks (rounds : ℕ) : ℕ := min rounds (k - 1)
  have hrounds : Fallible.Spec (topK.Selecting stream input order maxElements k (masks 0) 0)
      (Fallible.forRange k fun round => do
        topK.enqueueRound input.length round
        if round + 1 < k then enqueueMask round else pure ⟨⟩)
      (fun _ => topK.Selecting stream input order maxElements k (masks k) k)
      (topK.Stopped stream input maxElements k) := by
    refine Fallible.Spec.forRange
      (fun r => topK.Selecting stream input order maxElements k (masks r) r) k fun r hr => ?_
    have hmasks : masks r = r := Nat.min_eq_left (by omega)
    rw [hmasks]
    refine (enqueueRound_spec horder hnumber hlength hmax hk hr).bind fun _ => ?_
    by_cases hlast : r + 1 < k
    · have hmasks' : masks (r + 1) = r + 1 := Nat.min_eq_left (by omega)
      rw [if_pos hlast, hmasks']
      exact enqueueMask_spec horder hnumber hlength hk hr
    · have hmasks' : masks (r + 1) = r := by
        simp only [masks]
        omega
      rw [if_neg hlast, hmasks']
      exact Fallible.Spec.pure _ fun _ h => h
  have hzero : masks 0 = 0 := Nat.zero_min _
  rw [hzero] at hrounds
  refine Fallible.Spec.of_forall fun device hdevice => Fallible.Spec.get_bind ?_
  rw [hdevice.1.values, hdevice.1.indices, validateExecution_eq_ok hpos hk hlength hmax,
    Fallible.ofExcept_ok_bind]
  refine ((enqueueFill_spec hlength hmax).bind fun _ => hrounds).conseq (fun s hs => hs ▸ hdevice)
    (fun _ d hd => ⟨hd.toSized, ?_, ?_⟩) fun _ _ h => h
  · ext1 r
    rcases Nat.lt_or_ge r k with hr | hr
    · simp [hd.value_eq r hr, hr]
    · simp [hd.values, hr]
  · ext1 r
    rcases Nat.lt_or_ge r k with hr | hr
    · simp [hd.index_eq r hr, hr]
    · simp [hd.indices, hr]

/-- A driver that accepts the grids of a selection completes it. -/
theorem enqueueTopK_run (horder : Ranking input order) (hnumber : ∀ x ∈ input, x.isNaN = false)
    (hpos : 0 < k) (hk : k ≤ input.length) (hlength : input.length < u32Limit)
    (hmax : input.length ≤ maxElements) {device : TopKDevice}
    (hdevice : topK.Sized maxElements k device)
    (haccepts : device.stream.Accepts StreamWork.WithinGrid)
    (hgrid : input.length ⌈/⌉ topK.blockSize ≤ maxGridXBlocks) :
    ∃ d, (topK.enqueueTopK input k (topK.workspace maxElements)).run device = (.ok ⟨⟩, d) ∧
      topK.Chosen input order maxElements k d := by
  obtain ⟨_, d, hrun, hd⟩ := ((enqueueTopK_spec horder hnumber hpos hk hlength hmax).conseq
    (fun _ h => h) (fun _ _ h => h) fun _ _ h => h.refused.absurd haccepts
      fun _ hwork => le_trans hwork hgrid).exists_run ⟨hdevice, rfl⟩
  exact ⟨d, hrun, hd⟩

/-- A driver that refuses the longer grids refuses a copy with one. -/
theorem enqueueTopK_refused (hpos : 0 < k) (hk : k ≤ input.length)
    (hlength : input.length < u32Limit) (hmax : input.length ≤ maxElements) {device : TopKDevice}
    (hdevice : topK.Sized maxElements k device)
    (hrefuses : device.stream.Refuses StreamWork.BeyondGrid)
    (hgrid : maxGridXBlocks < input.length ⌈/⌉ topK.blockSize) :
    ∃ e, (topK.enqueueTopK input k (topK.workspace maxElements)).run device =
      (.error e, device) := by
  have hhost : ¬ u32Limit ≤ input.length ⌈/⌉ topK.blockSize :=
    Nat.not_le.2 ((fill_le _).trans_lt hlength)
  obtain ⟨e, hrefused⟩ := Option.ne_none_iff_exists'.1 (hrefuses device.stream.launches
    (.launch (input.length ⌈/⌉ topK.blockSize) topK.blockSize 0) hgrid)
  refine ⟨e, ?_⟩
  have hlaunch : (TopKDevice.launch (input.length ⌈/⌉ topK.blockSize) topK.blockSize 0).run device =
      (.error e, device) := by
    rw [TopKDevice.launch, Fallible.run_zoom, LaunchQueue.run_submit_refused hrefused]
    rfl
  rw [enqueueTopK, Fallible.run_bind_ok (Fallible.run_get _), hdevice.values, hdevice.indices,
    validateExecution_eq_ok hpos hk hlength hmax, Fallible.ofExcept_ok_bind, enqueueFill,
    if_neg hhost]
  exact Fallible.run_bind_error (Fallible.run_bind_error hlaunch _) _

/-! ### The order of the outputs -/

/-- The order of an input is unique. -/
theorem ranking_unique {order' : List ℕ} (h : Ranking input order) (h' : Ranking input order') :
    order = order' := by
  refine List.Perm.eq_of_pairwise (fun s t _ _ hst hts => ?_) h.sorted h'.sorted
    (h.perm.trans h'.perm.symm)
  simp only [RankedBefore] at hst hts
  omega

/-- The rounds select the beginning of the order if and only if they end before the second element
that the mask hides. -/
theorem selected_eq_iff (horder : Ranking input order) (hnumber : ∀ x ∈ input, x.isNaN = false)
    (hk : k ≤ input.length) :
    (∀ r < k, selected input order r = order.getD r 0) ↔
      k ≤ aboveMask input ∨
        k = aboveMask input + 1 ∧ input.getD 0 (.zero false) = .infinite true := by
  constructor
  · intro h
    by_contra hcontra
    have hlow : aboveMask input < k := by omega
    have hfirst := h _ hlow
    rw [selected, if_neg (Nat.lt_irrefl _)] at hfirst
    have hzero : input.getD 0 (.zero false) = .infinite true := by
      by_contra hne
      rw [hfirst] at hne
      exact Nat.lt_irrefl _ ((ne_infinite_iff horder hnumber (hlow.trans_le hk)).1 hne)
    have hmore : aboveMask input + 1 < k := by
      refine lt_of_le_of_ne hlow fun heq => hcontra (.inr ⟨heq.symm, hzero⟩)
    have hsecond := h _ hmore
    rw [selected, if_neg (by omega)] at hsecond
    have hsame := getD_order_inj horder (hlow.trans_le hk) (hmore.trans_le hk)
      (hfirst.symm.trans hsecond)
    omega
  · rintro (hle | ⟨rfl, hzero⟩) r hr
    · exact if_pos (hr.trans_le hle)
    · rcases Nat.lt_or_ge r (aboveMask input) with habove | hbelow
      · exact if_pos habove
      · obtain rfl : r = aboveMask input := by omega
        rw [selected, if_neg (Nat.lt_irrefl _)]
        -- The first element is ranked before every other one that the mask hides.
        obtain ⟨s, hs, hs0⟩ := exists_round horder (i := 0) (by omega)
        have hbelow : aboveMask input ≤ s := by
          by_contra hlt
          have hne := (ne_infinite_iff horder hnumber hs).2 (by omega)
          rw [hs0] at hne
          exact hne hzero
        rcases hbelow.eq_or_lt with heq | hlt
        · rw [heq, hs0]
        · exfalso
          have hr' : aboveMask input < order.length := by
            rw [length_order horder]
            omega
          have hs' : s < order.length := by
            rwa [length_order horder]
          have hranked := List.pairwise_iff_getElem.1 horder.sorted _ s hr' hs' hlt
          rw [← List.getD_eq_getElem _ 0, ← List.getD_eq_getElem _ 0, hs0] at hranked
          simp only [RankedBefore, hzero] at hranked
          have hmin := Binary.key_infinite_le
            (getD_isNaN hnumber (order.getD (aboveMask input) 0))
          have hlow : ¬ input.getD (order.getD (aboveMask input) 0) (.zero false) ≠
              .infinite true := by
            rw [ne_infinite_iff horder hnumber (by omega)]
            exact Nat.lt_irrefl _
          rw [not_not] at hlow
          rw [hlow] at hranked
          omega

/-- What the rounds select begins the order if every round selects the element of its rank. -/
private theorem sortedPrefix_iff (horder : Ranking input order) (hlength : input.length < u32Limit)
    (hk : k ≤ input.length) :
    SortedPrefix input
        ((List.range k).map fun r =>
          (masked input order r).getD (selected input order r) (.zero false))
        ((List.range k).map fun r => UInt32.ofNat (selected input order r)) ↔
      ∀ r < k, selected input order r = order.getD r 0 := by
  have htoNat : ((List.range k).map fun r => UInt32.ofNat (selected input order r)).map
      UInt32.toNat = (List.range k).map (selected input order) := by
    rw [List.map_map]
    refine List.map_congr_left fun r hr => ?_
    have hr : r < input.length := (List.mem_range.1 hr).trans_le hk
    exact UInt32.toNat_ofNat_of_lt' ((selected_lt horder hr).trans hlength)
  have htake : order.take k = (List.range k).map fun r => order.getD r 0 := by
    have hlen : k ≤ order.length := (length_order horder).symm ▸ hk
    refine List.ext_getElem (by simpa using hlen) fun i hi hi' => ?_
    rw [List.getElem_take, List.getElem_map, List.getElem_range]
    exact (List.getD_eq_getElem _ _ _).symm
  rw [SortedPrefix, htoNat, List.length_map, List.length_range]
  constructor
  · rintro ⟨order', horder', hindices, -⟩ r hr
    rw [← ranking_unique horder horder', htake] at hindices
    exact List.map_inj_left.1 hindices r (List.mem_range.2 hr)
  · intro h
    refine ⟨order, horder, ?_, ?_⟩
    · rw [htake]
      exact List.map_congr_left fun r hr => h r (List.mem_range.1 hr)
    · rw [htake, List.map_map]
      refine List.map_congr_left fun r hr => ?_
      have hr := List.mem_range.1 hr
      have hrange : r < input.length := hr.trans_le hk
      rw [h r hr, getD_masked r (getD_order_lt horder hrange), Function.comp_apply, if_neg]
      rw [getD_order_mem horder hrange]
      exact Nat.lt_irrefl r

/-- A selection from numbers ends after safe passes; on a driver that accepts the launches within
the limit of a grid and refuses those beyond, it returns if the copy of the input fits in a grid,
with indices of the input, and is refused otherwise. Its outputs begin the order of the input
exactly when it returns and they end before the second element that the mask hides. -/
theorem enqueueTopK_correct (hnumber : ∀ x ∈ input, x.isNaN = false) (hpos : 0 < k)
    (hk : k ≤ input.length) (hlength : input.length < u32Limit) (hmax : input.length ≤ maxElements)
    {device : TopKDevice} (hdevice : topK.Sized maxElements k device)
    (haccepts : device.stream.Accepts StreamWork.WithinGrid)
    (hrefuses : device.stream.Refuses StreamWork.BeyondGrid) :
    ∃ r d, (topK.enqueueTopK input k (topK.workspace maxElements)).run device = (r, d) ∧
      topK.Sized maxElements k d ∧
      (r = .ok ⟨⟩ ↔ input.length ⌈/⌉ topK.blockSize ≤ maxGridXBlocks) ∧
      (r = .ok ⟨⟩ → ∀ i ∈ d.indices, i.toNat < input.length) ∧
      (r = .ok ⟨⟩ ∧ SortedPrefix input d.values d.indices ↔
        input.length ⌈/⌉ topK.blockSize ≤ maxGridXBlocks ∧ (k ≤ aboveMask input ∨
          k = aboveMask input + 1 ∧ input.getD 0 (.zero false) = .infinite true)) := by
  obtain ⟨order, horder⟩ := HostLogitSampler.exists_ranking input
  by_cases hgrid : input.length ⌈/⌉ topK.blockSize ≤ maxGridXBlocks
  · obtain ⟨d, hrun, hd⟩ :=
      enqueueTopK_run horder hnumber hpos hk hlength hmax hdevice haccepts hgrid
    refine ⟨_, d, hrun, hd.toSized, iff_of_true rfl hgrid, fun _ i hi => ?_, ?_⟩
    · rw [hd.indices_eq] at hi
      obtain ⟨r, hr, rfl⟩ := List.mem_map.1 hi
      have hlt := selected_lt horder ((List.mem_range.1 hr).trans_le hk)
      rwa [UInt32.toNat_ofNat_of_lt' (hlt.trans hlength)]
    · rw [hd.values_eq, hd.indices_eq, sortedPrefix_iff horder hlength hk,
        selected_eq_iff horder hnumber hk]
      exact and_congr_left' (iff_of_true rfl hgrid)
  · obtain ⟨e, hrun⟩ :=
      enqueueTopK_refused hpos hk hlength hmax hdevice hrefuses (Nat.not_le.1 hgrid)
    exact ⟨_, device, hrun, hdevice, iff_of_false nofun hgrid, nofun,
      iff_of_false (fun h => nomatch h.1) fun h => hgrid h.1⟩

end Rounds

/-- Buffers of a workspace and outputs that hold zeros, and a stream whose driver refuses longer
grids. -/
def fresh (maxElements k : ℕ) : TopKDevice where
  data := List.replicate maxElements (.zero false)
  pairsA := List.replicate (topK.slots maxElements) sentinel
  pairsB := List.replicate (topK.slots maxElements) sentinel
  values := List.replicate k (.zero false)
  indices := List.replicate k 0
  passes := []
  stream := StreamWork.gridLimited

theorem sized_fresh (maxElements k : ℕ) : topK.Sized maxElements k (topK.fresh maxElements k) where
  data := List.length_replicate
  pairsA := List.length_replicate
  pairsB := List.length_replicate
  values := List.length_replicate
  indices := List.length_replicate
  safe _ hp := absurd hp List.not_mem_nil

/-- Two of three numbers. -/
theorem enqueueTopK_correct_two :
    let topK : F32TopK := ⟨2, ⟨1, rfl⟩, by decide⟩
    let input : List F32 := [.ofNat 1, .ofNat 3, .infinite true]
    ∃ d, (topK.enqueueTopK input 2 (topK.workspace 3)).run (topK.fresh 3 2) = (.ok ⟨⟩, d) ∧
      SortedPrefix input d.values d.indices := by
  intro topK input
  have hcorrect := @enqueueTopK_correct topK input 3 2 (by decide) (by decide) (by decide)
    (by decide) (Nat.le_refl 3) _ (topK.sized_fresh 3 2) StreamWork.accepts_gridLimited
    StreamWork.refuses_gridLimited
  obtain ⟨r, d, hrun, -, -, -, hprefix⟩ := hcorrect
  have hgrid : input.length ⌈/⌉ topK.blockSize ≤ maxGridXBlocks := by
    rw [Nat.ceilDiv_eq_add_pred_div]
    decide
  obtain ⟨rfl, hsorted⟩ := hprefix.2 ⟨hgrid, .inl (by decide)⟩
  exact ⟨d, hrun, hsorted⟩

/-- A number and the value of the mask: both rounds select the number. -/
theorem enqueueTopK_repeats :
    let topK : F32TopK := ⟨1, ⟨0, rfl⟩, by decide⟩
    let input : List F32 := [.ofNat 1, .infinite true]
    (∀ x ∈ input, x.isNaN = false) ∧
      ∃ d, (topK.enqueueTopK input 2 (topK.workspace 2)).run (topK.fresh 2 2) = (.ok ⟨⟩, d) ∧
        d.indices = [0, 0] ∧ ¬ SortedPrefix input d.values d.indices := by
  intro topK input
  have hnumber : ∀ x ∈ input, x.isNaN = false := by decide
  have horder : Ranking input [0, 1] := ⟨by decide, by decide⟩
  have hgrid : input.length ⌈/⌉ topK.blockSize ≤ maxGridXBlocks := by
    rw [Nat.ceilDiv_eq_add_pred_div]
    decide
  obtain ⟨d, hrun, hd⟩ := enqueueTopK_run horder hnumber (k := 2) (by decide) (by decide)
    (by decide) (Nat.le_refl 2) (topK.sized_fresh 2 2) StreamWork.accepts_gridLimited hgrid
  have hsame : d.indices = [0, 0] := hd.indices_eq.trans (by decide)
  refine ⟨hnumber, d, hrun, hsame, ?_⟩
  rintro ⟨order, hranking, hprefix, -⟩
  have hnodup := (nodup_order hranking).sublist (List.take_sublist d.indices.length order)
  rw [← hprefix, hsame] at hnodup
  exact absurd hnodup (by decide)

end F32TopK

end NNIS
