import Mathlib.Data.Multiset.Range
import NNIS.Kernels.Reduction
import NNIS.Model.SamplingSpec

/-!
# What the reductions return

A reduction of at least one element whose first pass needs at most as many blocks as a grid may have
ends, on a driver that accepts such launches; no pass leaves its buffers or reads the one that it
writes. The sum evaluates a tree of additions in which every element occurs once, and the other
leaves are zeros. The greatest element comes with the least index of it and compares equal to the
maximum. A longer input is rejected, by the driver or before it is asked.

## Main definitions

* `Scratch`, `Produces` — the buffers of the passes, and a run that ends with a word.
* `F32Reduction.Greatest` — the least index of a greatest element.

## Main results

* `F32Reduction.enqueueTree_produces`, `F32Reduction.enqueueArgmax_produces`.
* `F32Reduction.reductions_correct` — all three reductions.
-/

set_option autoImplicit false

namespace NNIS

open TreePasses (Device Pass Slot)

/-- Two scratch buffers and an output of one element. What they hold at first is arbitrary. -/
structure Scratch (α : Type) (slots : ℕ) where
  scratchA : List α
  scratchB : List α
  output : α
  length_scratchA : scratchA.length = slots
  length_scratchB : scratchB.length = slots

/-- Buffers that hold one element everywhere. -/
def Scratch.filled {α : Type} (slots : ℕ) (a : α) : Scratch α slots where
  scratchA := List.replicate slots a
  scratchB := List.replicate slots a
  output := a
  length_scratchA := List.length_replicate
  length_scratchB := List.length_replicate

/-- The device before a reduction. -/
def Scratch.device {α : Type} {slots : ℕ} (scratch : Scratch α slots)
    (stream : LaunchQueue NnisError StreamWork) (input : List α) :
    F32Reduction.ReductionDevice α where
  buffer
    | .input => input
    | .scratchA => scratch.scratchA
    | .scratchB => scratch.scratchB
    | .output => [scratch.output]
  passes := []
  stream

/-- A run that returns with a value in the output, all of whose passes are safe. -/
def Produces {α : Type} (m : Fallible (F32Reduction.ReductionDevice α) NnisError PUnit)
    (d : F32Reduction.ReductionDevice α) (value : α) : Prop :=
  ∃ d', m.run d = (.ok ⟨⟩, d') ∧ d'.buffer .output = [value] ∧
    ∀ p ∈ d'.passes, p.Safe fun slot => (d.buffer slot).length

namespace F32Reduction

variable (reduction : F32Reduction)

/-- The capacity of the scratch buffers of a workspace for up to a number of elements. -/
def slots (maxElements : ℕ) : ℕ := maxElements ⌈/⌉ (reduction.blockSize * 2)

theorem span_pos : 0 < reduction.blockSize * 2 := by
  obtain ⟨k, hk⟩ := reduction.isPowerOfTwo
  rw [hk]
  exact Nat.mul_pos (Nat.two_pow_pos k) Nat.two_pos

theorem partialCount_eq (elements : ℕ) :
    partialCount reduction.blockSize elements =
      .ok (elements ⌈/⌉ (reduction.blockSize * 2)) := by
  have hlt := reduction.sharedMemory_lt
  refine NNIS.partialCount_eq ?_ elements
  rw [u32Limit] at hlt
  rw [wordLimit]
  omega

/-- The workspace accepts the inputs that it is for. -/
theorem validateExecution_eq_ok (operation : String) {elements maxElements : ℕ}
    (h : elements ≤ maxElements) :
    reduction.validateExecution operation elements (reduction.workspace maxElements) = .ok ⟨⟩ := by
  rw [validateExecution, workspace, if_neg (Nat.not_lt.2 h), if_neg (not_not.2 rfl)]

section Passes

variable {reduction} {α : Type} {combine : α → α → α} {empty : α} {maxElements : ℕ}
  {submit : Pass → Fallible (LaunchQueue NnisError StreamWork) NnisError PUnit}
  (scratch : Scratch α (reduction.slots maxElements)) {stream : LaunchQueue NnisError StreamWork}
  {input : List α}

/-- The passes of an input that the workspace is for, on a driver that accepts them. -/
theorem run_produces (hne : input ≠ []) (hlength : input.length ≤ maxElements)
    (haccepts : stream.Accepts StreamWork.WithinGrid)
    (hsubmit : ∀ p : Pass, p.outputs ≤ input.length ⌈/⌉ (reduction.blockSize * 2) →
      0 < p.outputs → p.outputs = p.elements ⌈/⌉ (reduction.blockSize * 2) →
      (p.Safe fun slot => ((scratch.device stream input).buffer slot).length) →
      Fallible.Spec (fun s => s.refusal = stream.refusal) (submit p)
        (fun _ s => s.refusal = stream.refusal) (LaunchQueue.Refused StreamWork.WithinGrid stream))
    {result : α}
    (hreduce : TreeReduction.reduce combine empty reduction.blockSize input = some result) :
    Produces (TreePasses.run combine empty reduction.blockSize (partialCount reduction.blockSize)
      submit unfinished input.length) (scratch.device stream input) result := by
  have hspan := reduction.span_pos
  have hcount := reduction.partialCount_eq
  have hslots : input.length ⌈/⌉ (reduction.blockSize * 2) ≤ reduction.slots maxElements :=
    TreePasses.ceilDiv_mono hspan hlength
  obtain ⟨k, hk⟩ := reduction.isPowerOfTwo
  rw [hk] at hsubmit hreduce hcount hslots hspan ⊢
  have hspec := @TreePasses.run_spec _ _ _ combine empty (partialCount (2 ^ k)) submit
    (scratch.device stream input) input.length result k (fun s => s.refusal = stream.refusal)
    (LaunchQueue.Refused StreamWork.WithinGrid stream) unfinished (List.length_pos_iff.2 hne)
    ⟨le_rfl, hslots.trans_eq scratch.length_scratchA.symm,
      hslots.trans_eq scratch.length_scratchB.symm, Nat.one_pos⟩
    (fun m _ _ => hcount m) rfl
    (fun p hp hsafe => hsubmit p hp.outputs_le
      (hp.outputs_eq ▸ TreePasses.ceilDiv_pos hspan hp.elements_pos) hp.outputs_eq hsafe)
    (by
      change TreeReduction.reduce combine empty (2 ^ k) (input.take input.length) = some result
      rwa [List.take_length])
  obtain ⟨_, d, hrun, hd, -⟩ := (hspec.conseq (fun _ h => h) (fun _ _ h => h)
    fun _ _ h => h.2.absurd haccepts fun _ h => h).exists_run rfl
  obtain ⟨more, hmore, hsafe⟩ := hd.passes_eq
  refine ⟨d, hrun, hd.output_eq, fun p hp => hsafe p ?_⟩
  rw [hmore] at hp
  exact hp

/-- The submission of the first pass decides about an input that needs more than one block. -/
theorem run_rejects {e : NnisError} (hmore : 1 < input.length ⌈/⌉ (reduction.blockSize * 2))
    (hsubmit : (submit ⟨.input, .scratchA, input.length,
      input.length ⌈/⌉ (reduction.blockSize * 2)⟩).run stream = (.error e, stream)) :
    (TreePasses.run combine empty reduction.blockSize (partialCount reduction.blockSize)
      submit unfinished input.length).run (scratch.device stream input) =
        (.error e, scratch.device stream input) := by
  have hne : input.length ≠ 0 := by
    intro hzero
    rw [hzero, zero_ceilDiv] at hmore
    omega
  obtain ⟨fuel, hfuel⟩ := Nat.exists_eq_succ_of_ne_zero hne
  have hdestination : (⟨.input, input.length, true⟩ : TreePasses.Cursor).destination
      (input.length ⌈/⌉ (reduction.blockSize * 2)) = .scratchA := by
    rw [TreePasses.Cursor.destination, if_neg hmore.ne']
    rfl
  have hzoom : ((submit ⟨.input, .scratchA, input.length,
      input.length ⌈/⌉ (reduction.blockSize * 2)⟩).zoom Device.stream Device.withStream).run
        (scratch.device stream input) = (.error e, scratch.device stream input) := by
    have hstream : (scratch.device stream input).stream = stream := rfl
    rw [Fallible.run_zoom, hstream, hsubmit]
    rfl
  have hround : (TreePasses.round combine empty reduction.blockSize
      (partialCount reduction.blockSize) submit ⟨.input, input.length, true⟩).run
        (scratch.device stream input) = (.error e, scratch.device stream input) := by
    rw [TreePasses.round, reduction.partialCount_eq, Fallible.ofExcept_ok_bind, hdestination,
      Fallible.run_bind_error hzoom]
  rw [TreePasses.run]
  generalize hn : input.length = n at hround hfuel
  subst hfuel
  rw [Fallible.loop, Fallible.run_bind_error hround]

end Passes

/-- More blocks than a grid may have are more than one, of at least one element. -/
private theorem long_input {α : Type} {input : List α} {span : ℕ}
    (hlong : maxGridXBlocks < input.length ⌈/⌉ span) : input ≠ [] ∧ 1 < input.length ⌈/⌉ span := by
  refine ⟨?_, lt_of_le_of_lt (by decide) hlong⟩
  rintro rfl
  rw [List.length_nil, zero_ceilDiv] at hlong
  exact absurd hlong (by decide)

/-! ### Sums and maxima -/

section Tree

variable {reduction} {combine : F32 → F32 → F32} {empty : F32} {kind : TreeKind} {maxElements : ℕ}
  (scratch : Scratch F32 (reduction.slots maxElements)) {stream : LaunchQueue NnisError StreamWork}
  {input : List F32}

/-- A non-empty input of the workspace passes the checks. -/
private theorem enqueueTree_eq (hne : input ≠ []) (hlength : input.length ≤ maxElements) :
    (reduction.enqueueTree combine empty kind (reduction.workspace maxElements)).run
        (scratch.device stream input) =
      (TreePasses.run combine empty reduction.blockSize (partialCount reduction.blockSize)
        (reduction.enqueuePass fun slot => ((scratch.device stream input).buffer slot).length)
        unfinished input.length).run (scratch.device stream input) := by
  have hvalid : reduction.validateExecution "reduction"
      ((scratch.device stream input).buffer .input).length (reduction.workspace maxElements) =
        .ok ⟨⟩ :=
    reduction.validateExecution_eq_ok "reduction" hlength
  have houtput : ¬ ((scratch.device stream input).buffer .output).length ≠ 1 := not_not.2 rfl
  have hinput : ¬ ((scratch.device stream input).buffer .input).length = 0 :=
    fun h => hne (List.length_eq_zero_iff.1 h)
  unfold enqueueTree
  rw [Fallible.run_bind_ok (Fallible.run_get _)]
  simp only [if_neg houtput, if_neg hinput]
  rw [hvalid, Fallible.ofExcept_ok_bind]
  rfl

/-- The checks of a pass whose destination holds its outputs. -/
private theorem enqueuePass_eq {capacity : Slot → ℕ} {p : Pass}
    (hcapacity : p.outputs ≤ capacity p.destination)
    (houtputs : p.elements ⌈/⌉ (reduction.blockSize * 2) = p.outputs) (hpos : 0 < p.outputs) :
    reduction.enqueuePass capacity p =
      if u32Limit ≤ p.outputs then
        Fallible.fail (.invalidInput "reduction grid exceeds u32::MAX blocks")
      else LaunchQueue.submit
        (.launch p.outputs reduction.blockSize (reduction.blockSize * 4)) := by
  have hshared : ¬ u32Limit ≤ reduction.blockSize * 4 := by
    have hlt := reduction.sharedMemory_lt
    omega
  have hfits : ¬ (p.outputs = 0 ∨ capacity p.destination < p.outputs) := by
    omega
  rw [enqueuePass, reduction.partialCount_eq, houtputs, Fallible.ofExcept_ok_bind, if_neg hfits,
    if_neg hshared]

theorem enqueueTree_produces (hne : input ≠ []) (hlength : input.length ≤ maxElements)
    (haccepts : stream.Accepts StreamWork.WithinGrid)
    (hgrid : input.length ⌈/⌉ (reduction.blockSize * 2) ≤ maxGridXBlocks) {result : F32}
    (hreduce : TreeReduction.reduce combine empty reduction.blockSize input = some result) :
    Produces (reduction.enqueueTree combine empty kind (reduction.workspace maxElements))
      (scratch.device stream input) result := by
  have hsubmit (p : Pass) (hle : p.outputs ≤ input.length ⌈/⌉ (reduction.blockSize * 2))
      (hpos : 0 < p.outputs) (houtputs : p.outputs = p.elements ⌈/⌉ (reduction.blockSize * 2))
      (hsafe : p.Safe fun slot => ((scratch.device stream input).buffer slot).length) :
      Fallible.Spec (fun s => s.refusal = stream.refusal)
        (reduction.enqueuePass
          (fun slot => ((scratch.device stream input).buffer slot).length) p)
        (fun _ s => s.refusal = stream.refusal)
        (LaunchQueue.Refused StreamWork.WithinGrid stream) := by
    have hwithin : p.outputs ≤ maxGridXBlocks := hle.trans hgrid
    rw [enqueuePass_eq hsafe.outputs_le houtputs.symm hpos,
      if_neg (Nat.not_le.2 (hwithin.trans_lt (by decide)))]
    exact stream.submit_spec hwithin
  obtain ⟨d, hrun, hd⟩ := run_produces scratch hne hlength haccepts hsubmit hreduce
  exact ⟨d, (enqueueTree_eq scratch hne hlength).trans hrun, hd⟩

/-- A longer input is rejected before any pass runs: by the host when its grid is no 32-bit number,
by the driver otherwise. -/
theorem enqueueTree_rejects (hlength : input.length ≤ maxElements)
    (hrefuses : stream.Refuses StreamWork.BeyondGrid)
    (hgrid : maxGridXBlocks < input.length ⌈/⌉ (reduction.blockSize * 2)) :
    ∃ e, (reduction.enqueueTree combine empty kind (reduction.workspace maxElements)).run
        (scratch.device stream input) = (.error e, scratch.device stream input) ∧
      (u32Limit ≤ input.length ⌈/⌉ (reduction.blockSize * 2) →
        e = .invalidInput "reduction grid exceeds u32::MAX blocks") := by
  obtain ⟨hne, hmore⟩ := long_input hgrid
  have hcapacity : input.length ⌈/⌉ (reduction.blockSize * 2) ≤ scratch.scratchA.length := by
    rw [scratch.length_scratchA]
    exact TreePasses.ceilDiv_mono reduction.span_pos hlength
  have hpass := @enqueuePass_eq reduction
    (fun slot => ((scratch.device stream input).buffer slot).length)
    ⟨.input, .scratchA, input.length, input.length ⌈/⌉ (reduction.blockSize * 2)⟩ hcapacity rfl
    (Nat.zero_lt_of_lt hmore)
  rw [enqueueTree_eq scratch hne hlength]
  by_cases hhost : u32Limit ≤ input.length ⌈/⌉ (reduction.blockSize * 2)
  · rw [if_pos hhost] at hpass
    refine ⟨_, run_rejects scratch hmore ?_, fun _ => rfl⟩
    rw [hpass]
    rfl
  · rw [if_neg hhost] at hpass
    obtain ⟨e, hrefused⟩ := Option.ne_none_iff_exists'.1 (hrefuses stream.launches
      (.launch (input.length ⌈/⌉ (reduction.blockSize * 2)) reduction.blockSize
        (reduction.blockSize * 4)) hgrid)
    refine ⟨e, run_rejects scratch hmore ?_, fun h => absurd h hhost⟩
    rw [hpass]
    exact LaunchQueue.run_submit_refused hrefused

end Tree

/-! ### Greatest elements -/

section Argmax

variable {reduction} {maxElements : ℕ} (scratch : Scratch Best (reduction.slots maxElements))
  {stream : LaunchQueue NnisError StreamWork} {input : List F32} (aligned : 1 < reduction.blockSize)

@[simp] theorem length_indexed (input : List F32) : (indexed input).length = input.length := by
  simp [indexed]

private theorem indexed_ne_nil (hne : input ≠ []) : indexed input ≠ [] := by
  rw [← List.length_pos_iff, length_indexed]
  exact List.length_pos_iff.2 hne

/-- A non-empty input of the workspace passes the checks. -/
private theorem enqueueArgmax_eq (hne : input ≠ []) (hlength : input.length ≤ maxElements) :
    (reduction.enqueueArgmax aligned (reduction.workspace maxElements)).run
        (scratch.device stream (indexed input)) =
      (TreePasses.run keepBetter noBest reduction.blockSize (partialCount reduction.blockSize)
        reduction.enqueueArgmaxPass unfinished (indexed input).length).run
          (scratch.device stream (indexed input)) := by
  have hvalid : reduction.validateExecution "argmax"
      ((scratch.device stream (indexed input)).buffer .input).length
      (reduction.workspace maxElements) = .ok ⟨⟩ :=
    reduction.validateExecution_eq_ok "argmax" ((length_indexed input).trans_le hlength)
  have houtput : ¬ ((scratch.device stream (indexed input)).buffer .output).length ≠ 1 :=
    not_not.2 rfl
  have hinput : ¬ ((scratch.device stream (indexed input)).buffer .input).length = 0 :=
    fun h => indexed_ne_nil hne (List.length_eq_zero_iff.1 h)
  unfold enqueueArgmax
  rw [Fallible.run_bind_ok (Fallible.run_get _)]
  simp only [if_neg houtput, if_neg hinput, if_neg (Nat.not_le.2 reduction.sharedMemory_lt)]
  rw [hvalid, Fallible.ofExcept_ok_bind]
  rfl

theorem enqueueArgmax_produces (hne : input ≠ []) (hlength : input.length ≤ maxElements)
    (haccepts : stream.Accepts StreamWork.WithinGrid)
    (hgrid : input.length ⌈/⌉ (reduction.blockSize * 2) ≤ maxGridXBlocks) {result : Best}
    (hreduce : TreeReduction.reduce keepBetter noBest reduction.blockSize (indexed input) =
      some result) :
    Produces (reduction.enqueueArgmax aligned (reduction.workspace maxElements))
      (scratch.device stream (indexed input)) result := by
  have hsubmit (p : Pass)
      (hle : p.outputs ≤ (indexed input).length ⌈/⌉ (reduction.blockSize * 2)) :
      Fallible.Spec (fun s => s.refusal = stream.refusal) (reduction.enqueueArgmaxPass p)
        (fun _ s => s.refusal = stream.refusal)
        (LaunchQueue.Refused StreamWork.WithinGrid stream) := by
    rw [length_indexed] at hle
    have hwithin : p.outputs ≤ maxGridXBlocks := hle.trans hgrid
    rw [enqueueArgmaxPass, if_neg (Nat.not_le.2 (hwithin.trans_lt (by decide)))]
    exact stream.submit_spec hwithin
  obtain ⟨d, hrun, hd⟩ := run_produces scratch (indexed_ne_nil hne)
    ((length_indexed input).trans_le hlength) haccepts (fun p hle _ _ _ => hsubmit p hle) hreduce
  exact ⟨d, (enqueueArgmax_eq scratch aligned hne hlength).trans hrun, hd⟩

theorem enqueueArgmax_rejects (hlength : input.length ≤ maxElements)
    (hrefuses : stream.Refuses StreamWork.BeyondGrid)
    (hgrid : maxGridXBlocks < input.length ⌈/⌉ (reduction.blockSize * 2)) :
    ∃ e, (reduction.enqueueArgmax aligned (reduction.workspace maxElements)).run
        (scratch.device stream (indexed input)) =
          (.error e, scratch.device stream (indexed input)) ∧
      (u32Limit ≤ input.length ⌈/⌉ (reduction.blockSize * 2) →
        e = .invalidInput "argmax pass exceeds u32::MAX blocks") := by
  obtain ⟨hne, hmore⟩ := long_input hgrid
  rw [enqueueArgmax_eq scratch aligned hne hlength]
  rw [← length_indexed input] at hgrid hmore ⊢
  by_cases hhost : u32Limit ≤ (indexed input).length ⌈/⌉ (reduction.blockSize * 2)
  · refine ⟨_, run_rejects scratch hmore ?_, fun _ => rfl⟩
    rw [enqueueArgmaxPass, if_pos hhost]
    rfl
  · obtain ⟨e, hrefused⟩ := Option.ne_none_iff_exists'.1 (hrefuses stream.launches
      (.launch ((indexed input).length ⌈/⌉ (reduction.blockSize * 2)) reduction.blockSize
        (reduction.blockSize * 12)) hgrid)
    refine ⟨e, run_rejects scratch hmore ?_, fun h => absurd h hhost⟩
    rw [enqueueArgmaxPass, if_neg hhost]
    exact LaunchQueue.run_submit_refused hrefused

end Argmax

/-- The position of the greatest element, the least of them if there are several. -/
structure Greatest (input : List F32) (i : ℕ) : Prop where
  lt : i < input.length
  le : ∀ j < input.length, (input.getD j (.zero false)).le (input.getD i (.zero false)) = true
  least : ∀ j < i, (input.getD j (.zero false)).lt (input.getD i (.zero false)) = true

/-- Numbers have a greatest one, before which every other number is ranked. -/
private theorem exists_greatest {input : List F32} (hne : input ≠ [])
    (hnumber : ∀ x ∈ input, x.isNaN = false) :
    ∃ i, Greatest input i ∧ ∀ j < input.length, j ≠ i → RankedBefore input i j := by
  obtain ⟨order, horder⟩ := HostLogitSampler.exists_ranking input
  have hlength : order.length = input.length := by
    rw [horder.perm.length_eq, List.length_range]
  have horderNe : order ≠ [] := by
    rw [← List.length_pos_iff, hlength]
    exact List.length_pos_iff.2 hne
  obtain ⟨i, rest, rfl⟩ := List.exists_cons_of_ne_nil horderNe
  have hi : i < input.length := List.mem_range.1 (horder.perm.mem_iff.1 List.mem_cons_self)
  have hranked (j : ℕ) (hj : j < input.length) (hji : j ≠ i) : RankedBefore input i j := by
    have hmem := horder.perm.mem_iff.2 (List.mem_range.2 hj)
    exact List.rel_of_pairwise_cons horder.sorted ((List.mem_cons.1 hmem).resolve_left hji)
  refine ⟨i, ⟨hi, fun j hj => ?_, fun j hj => ?_⟩, hranked⟩
  · rw [Binary.le_eq (getD_isNaN hnumber j) (getD_isNaN hnumber i), decide_eq_true_eq]
    by_cases hji : j = i
    · rw [hji]
    · exact (hranked j hj hji).elim (fun h => h.le) fun h => h.1.le
  · rw [Binary.lt_eq (getD_isNaN hnumber j) (getD_isNaN hnumber i), decide_eq_true_eq]
    rcases hranked j (hj.trans hi) hj.ne with h | ⟨-, h⟩
    · exact h
    · omega

/-- The comparison of two pairs by the kernels. -/
private def better (candidate best : Best) : Bool :=
  nnisArgmaxBetter candidate.value candidate.index best.value best.index

private theorem prefersRanked_better :
    PrefersRanked better Best.value fun best => best.index.toNat :=
  fun _ _ hc hi => Binary.lt_or_le_iff hc hi

/-- The reduction of the pairs returns the pair of the greatest element. -/
private theorem reduce_indexed {input : List F32} {i : ℕ} (k : ℕ)
    (hnumber : ∀ x ∈ input, x.isNaN = false) (hi : i < input.length)
    (hranked : ∀ j < input.length, j ≠ i → RankedBefore input i j)
    (hlength : input.length < UInt64.size) :
    TreeReduction.reduce keepBetter noBest (2 ^ k) (indexed input) =
      some ⟨input.getD i (.zero false), UInt64.ofNat i⟩ := by
  have hlast : i < noBest.index.toNat := by
    have hsize : noBest.index.toNat = UInt64.size - 1 := rfl
    omega
  exact prefersRanked_better.reduce_eq (fun _ _ => rfl) hnumber (fun _ => rfl)
    (fun j hj => UInt64.toNat_ofNat_of_lt' (hj.trans hlength)) hi hranked rfl
    (pairRanked_infinite (getD_isNaN hnumber i) hlast) k

/-- A tree of maxima over numbers evaluates to one that compares equal to the greatest of them. -/
private theorem eval_fmaxf {math : ReductionMath} {input : List F32} {t : ReductionTree ℕ}
    (ht : t.leaves = Multiset.range input.length) (hnumber : ∀ x ∈ input, x.isNaN = false) {i : ℕ}
    (hi : Greatest input i) {result : F32}
    (hresult : result = t.eval math.fmaxf (.infinite true) fun j =>
      input.getD j (.infinite true)) :
    result.le (input.getD i (.zero false)) = true ∧
      (input.getD i (.zero false)).le result = true := by
  have hgetD (j : ℕ) (hj : j < input.length) :
      input.getD j (.infinite true) = input.getD j (.zero false) := by
    rw [List.getD_eq_getElem _ _ hj, List.getD_eq_getElem _ _ hj]
  have hi' := getD_isNaN hnumber i
  let Bounded (x : F32) : Prop :=
    x.isNaN = false ∧ x.key ≤ (input.getD i (.zero false)).key
  have hcombine (x y : F32) (hx : Bounded x) (hy : Bounded y) : Bounded (math.fmaxf x y) := by
    refine ⟨?_, ?_⟩
    · rcases math.fmaxf_eq x y hx.1 hy.1 with h | h
      · rw [h]
        exact hx.1
      · rw [h]
        exact hy.1
    · rw [math.key_fmaxf x y hx.1 hy.1]
      exact max_le hx.2 hy.2
  have hempty : Bounded (.infinite true) := ⟨rfl, Binary.key_infinite_le hi'⟩
  have hvalue : ∀ j ∈ t.leaves, Bounded (input.getD j (.infinite true)) := by
    intro j hj
    rw [ht, Multiset.mem_range] at hj
    have hj' := getD_isNaN hnumber j
    have hle := hi.le j hj
    rw [Binary.le_eq hj' hi', decide_eq_true_eq] at hle
    rw [hgetD j hj]
    exact ⟨hj', hle⟩
  obtain ⟨hnan, hbound⟩ := ReductionTree.eval_induction hcombine hempty hvalue
  have hraise (x y : F32) (hx : Bounded x) (hy : Bounded y) :
      x.key ≤ (math.fmaxf x y).key ∧ y.key ≤ (math.fmaxf x y).key := by
    rw [math.key_fmaxf x y hx.1 hy.1]
    exact ⟨le_max_left _ _, le_max_right _ _⟩
  have hle := ReductionTree.le_eval hcombine hempty hvalue hraise i
    (ht ▸ Multiset.mem_range.2 hi.lt)
  rw [hgetD i hi.lt] at hle
  rw [← hresult] at hnan hbound hle
  rw [Binary.le_eq hnan hi', Binary.le_eq hi' hnan, decide_eq_true_eq, decide_eq_true_eq]
  exact ⟨hbound, hle⟩

/-- A reduction of numbers, on a driver that accepts the launches within the limit of a grid and
refuses those beyond. When the first pass fits in a grid, the sum evaluates a tree with every
element in one leaf, which is the sum in every commutative monoid; the greatest element comes with
its least index, and compares equal to the maximum. Otherwise all three are rejected and no pass
runs. -/
theorem reductions_correct (math : ReductionMath) {maxElements : ℕ}
    (floats : Scratch F32 (reduction.slots maxElements))
    (pairs : Scratch Best (reduction.slots maxElements)) (stream : LaunchQueue NnisError StreamWork)
    (haccepts : stream.Accepts StreamWork.WithinGrid)
    (hrefuses : stream.Refuses StreamWork.BeyondGrid) {input : List F32} (hne : input ≠ [])
    (hlength : input.length ≤ maxElements) (hnumber : ∀ x ∈ input, x.isNaN = false) :
    let workspace := reduction.workspace maxElements
    let blocks := input.length ⌈/⌉ (reduction.blockSize * 2)
    (blocks ≤ maxGridXBlocks →
      (∃ t : ReductionTree ℕ, t.leaves = Multiset.range input.length ∧
        (∀ {M : Type} [AddCommMonoid M] (value : ℕ → M),
          t.eval (· + ·) 0 value = ∑ i ∈ Finset.range input.length, value i) ∧
        Produces (reduction.enqueueSum math workspace) (floats.device stream input)
          (t.eval math.add (.zero false) fun i => input.getD i (.zero false))) ∧
      ∃ (i : ℕ) (greatest : F32), Greatest input i ∧
        (∀ aligned, Produces (reduction.enqueueArgmax aligned workspace)
          (pairs.device stream (indexed input)) ⟨input.getD i (.zero false), UInt64.ofNat i⟩) ∧
        (UInt64.ofNat i).toNat = i ∧
        Produces (reduction.enqueueMax math workspace) (floats.device stream input) greatest ∧
        greatest.le (input.getD i (.zero false)) = true ∧
        (input.getD i (.zero false)).le greatest = true) ∧
    (maxGridXBlocks < blocks →
      (∃ e, (reduction.enqueueSum math workspace).run (floats.device stream input) =
          (.error e, floats.device stream input) ∧
        (u32Limit ≤ blocks → e = .invalidInput "reduction grid exceeds u32::MAX blocks")) ∧
      (∃ e, (reduction.enqueueMax math workspace).run (floats.device stream input) =
          (.error e, floats.device stream input) ∧
        (u32Limit ≤ blocks → e = .invalidInput "reduction grid exceeds u32::MAX blocks")) ∧
      ∀ aligned, ∃ e, (reduction.enqueueArgmax aligned workspace).run
          (pairs.device stream (indexed input)) =
            (.error e, pairs.device stream (indexed input)) ∧
        (u32Limit ≤ blocks → e = .invalidInput "argmax pass exceeds u32::MAX blocks")) := by
  intro workspace blocks
  refine ⟨fun hgrid => ?_, fun hgrid => ?_⟩
  · obtain ⟨k, hk⟩ := reduction.isPowerOfTwo
    have hsize : input.length < UInt64.size := by
      have hspan := (ceilDiv_le_iff_le_mul reduction.span_pos).1 hgrid
      have hshared := reduction.sharedMemory_lt
      have hmul : reduction.blockSize * 2 * maxGridXBlocks ≤ u32Limit / 4 * maxGridXBlocks :=
        Nat.mul_le_mul_right _ (by omega)
      exact (hspan.trans hmul).trans_lt (by decide)
    obtain ⟨i, hi, hranked⟩ := exists_greatest hne hnumber
    obtain ⟨sumTree, hsumTree, hsum⟩ :=
      @TreeReduction.exists_tree _ math.add (.zero false) k _ hne
    obtain ⟨maxTree, hmaxTree, hmax⟩ :=
      @TreeReduction.exists_tree _ math.fmaxf (.infinite true) k _ hne
    rw [← hk] at hsum hmax
    refine ⟨⟨sumTree, hsumTree, fun {M} _ value => ?_,
      enqueueTree_produces floats hne hlength haccepts hgrid hsum⟩, i, _, hi, fun aligned =>
      enqueueArgmax_produces pairs aligned hne hlength haccepts hgrid ?_,
      UInt64.toNat_ofNat_of_lt' (hi.lt.trans hsize),
      enqueueTree_produces floats hne hlength haccepts hgrid hmax,
      eval_fmaxf hmaxTree hnumber hi rfl⟩
    · rw [ReductionTree.eval_add, hsumTree]
      rfl
    · rw [hk]
      exact reduce_indexed k hnumber hi.lt hranked hsize
  · exact ⟨enqueueTree_rejects floats hlength hrefuses hgrid,
      enqueueTree_rejects floats hlength hrefuses hgrid,
      fun aligned => enqueueArgmax_rejects pairs aligned hlength hrefuses hgrid⟩

/-- Blocks of two threads find the greatest of three numbers. -/
theorem reductions_correct_three :
    let reduction : F32Reduction := ⟨2, ⟨1, rfl⟩, by decide⟩
    let input : List F32 := [.ofNat 1, .ofNat 3, .ofNat 2]
    Produces (reduction.enqueueArgmax (Nat.lt_succ_self 1) (reduction.workspace 3))
      ((Scratch.filled (reduction.slots 3) noBest).device StreamWork.gridLimited (indexed input))
        ⟨.ofNat 3, 1⟩ := by
  intro reduction input
  have hcorrect := reduction.reductions_correct .ieee
    (Scratch.filled (reduction.slots 3) (.zero false)) (Scratch.filled (reduction.slots 3) noBest)
    StreamWork.gridLimited StreamWork.accepts_gridLimited StreamWork.refuses_gridLimited
    (List.cons_ne_nil _ _ : input ≠ []) (Nat.le_refl 3) (by decide)
  have hgrid : input.length ⌈/⌉ (reduction.blockSize * 2) ≤ maxGridXBlocks := by
    rw [Nat.ceilDiv_eq_add_pred_div]
    decide
  obtain ⟨-, i, -, hi, hargmax, -⟩ := hcorrect.1 hgrid
  have hlt : i < 3 := hi.lt
  have hle := hi.le 1 (by decide)
  have hone : i = 1 := by
    rcases (by omega : i = 0 ∨ i = 1 ∨ i = 2) with rfl | rfl | rfl
    · exact absurd hle (by decide)
    · rfl
    · exact absurd hle (by decide)
  subst hone
  exact hargmax _

/-- A block of one thread reduces two elements, and a grid has no room for two to the 32 blocks. -/
theorem sum_rejects_long :
    let reduction : F32Reduction := ⟨1, ⟨0, rfl⟩, by decide⟩
    let input : List F32 := List.replicate (2 ^ 33) (.zero false)
    input ≠ [] ∧ (∀ x ∈ input, x.isNaN = false) ∧
      ∃ floats : Scratch F32 (reduction.slots (2 ^ 33)),
        ¬ ∃ value, Produces (reduction.enqueueSum .ieee (reduction.workspace (2 ^ 33)))
          (floats.device StreamWork.gridLimited input) value := by
  intro reduction input
  have hlength : input.length = 2 ^ 33 := List.length_replicate
  have hne : input ≠ [] := by
    rw [← List.length_pos_iff, hlength]
    exact Nat.two_pow_pos 33
  refine ⟨hne, fun x hx => ?_, .filled _ (.zero false), ?_⟩
  · rw [List.eq_of_mem_replicate hx]
    rfl
  · rintro ⟨value, d, hrun, -⟩
    have hspan : input.length ⌈/⌉ (reduction.blockSize * 2) = 2 ^ 32 := by
      rw [hlength, Nat.ceilDiv_eq_add_pred_div]
      change (2 ^ 33 + 1 * 2 - 1) / (1 * 2) = 2 ^ 32
      omega
    rw [enqueueSum] at hrun
    obtain ⟨e, hrejected, -⟩ := @enqueueTree_rejects reduction ReductionMath.ieee.add (.zero false)
      .sum (2 ^ 33) (.filled _ (.zero false)) StreamWork.gridLimited input hlength.le
      StreamWork.refuses_gridLimited (lt_of_lt_of_eq (by decide) hspan.symm)
    rw [hrejected] at hrun
    cases hrun

end F32Reduction

end NNIS
