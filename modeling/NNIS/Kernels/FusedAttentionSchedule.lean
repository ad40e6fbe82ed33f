import NNIS.Kernels.FusedAttentionPlan
import NNIS.Numeric.Binary

/-!
# The fused attention kernels under every schedule

In every chunk all threads read the maximum from the cell into which the first thread writes its
weight before the next barrier. A block of more than one thread therefore races, and its output may
depend on the order of its threads. This is the only race: when the first thread runs last in the
phases of the weights, the order of the others does not matter.

## Main definitions

* `FusedAttention.ScheduleFree` — the output is the same under all schedules and no phase races.
* `FusedAttention.FirstLast` — the first thread runs last in the phases of the weights.

## Main results

* `FusedAttention.scheduleFree_iff`, `FusedAttention.run_law`, `fusedKernels_scheduleFree_iff`.
-/

set_option autoImplicit false

namespace NNIS

namespace FusedAttention

open Block

variable {F I O : Type} (a : FusedAttention F I O) {threads : ℕ}
  (memory : (c : BlockCell) → BlockCell.Value F O c)

/-- Under all schedules the output is the same, and in no phase does a thread read a cell that a
different thread writes. -/
def ScheduleFree (threads : ℕ) : Prop :=
  (∀ schedule schedule', IsSchedule threads schedule → IsSchedule threads schedule' →
    ∀ m m', Ends threads (a.block threads memory) schedule m →
      Ends threads (a.block threads memory) schedule' m' → ∀ i, m (.output i) = m' (.output i)) ∧
  ∀ schedule, IsSchedule threads schedule → ∀ n,
    ¬ (run schedule (a.block threads memory) n).Races (schedule n)

/-- In the phases of the weights the first thread runs last. -/
def FirstLast (threads : ℕ) (schedule : ℕ → List ℕ) : Prop :=
  ∀ n, (a.stages threads)[n]? = some .weighting → ∃ others, schedule n = others ++ [0]

/-- Every schedule ends; the phases other than those of the weights do not race; schedules under
which the first thread runs last in the phases of the weights leave the same memory. -/
def RunLaw (threads : ℕ) : Prop :=
  (∀ schedule, IsSchedule threads schedule →
    (∃ m, Ends threads (a.block threads memory) schedule m) ∧
      ∀ n, (a.stages threads)[n]? ≠ some .weighting →
        ¬ (run schedule (a.block threads memory) n).Races (schedule n)) ∧
  ∀ schedule schedule', IsSchedule threads schedule → IsSchedule threads schedule' →
    a.FirstLast threads schedule → a.FirstLast threads schedule' →
      ∀ m m', Ends threads (a.block threads memory) schedule m →
        Ends threads (a.block threads memory) schedule' m' → m = m'

theorem block_followsPlan : FollowsPlan threads (a.block threads memory) (a.phases threads) :=
  fun _ ht => a.follows_thread ht

theorem length_phases : (a.phases threads).length = (a.stages threads).length := List.length_map _

theorem run_finished {schedule : ℕ → List ℕ} (hschedule : IsSchedule threads schedule) :
    Finished threads (run schedule (a.block threads memory) (a.phases threads).length) :=
  (a.block_followsPlan memory).run_finished hschedule (List.cons_ne_nil _ _)

/-! ### Without a race -/

theorem not_races {schedule : ℕ → List ℕ} (hschedule : IsSchedule threads schedule) {n : ℕ}
    (hn : (a.stages threads)[n]? ≠ some .weighting) :
    ¬ (run schedule (a.block threads memory) n).Races (schedule n) := by
  rcases Nat.lt_or_ge n (a.phases threads).length with hlt | hge
  · have hplan := (a.block_followsPlan memory).run hschedule hlt
    have hlt' : n < (a.stages threads).length := a.length_phases ▸ hlt
    have hphase : (a.phases threads)[n] = a.footprint threads (a.stages threads)[n] :=
      List.getElem_map _
    rw [List.drop_eq_getElem_cons hlt, hphase] at hplan
    refine not_races_of_separate hplan (a.separate_footprint threads fun h => hn ?_) (hschedule n)
    rw [List.getElem?_eq_getElem hlt', h]
  · obtain ⟨k, rfl⟩ := Nat.exists_eq_add_of_le hge
    refine not_races_of_finished ?_ (hschedule _)
    rw [run_of_finished hschedule (a.run_finished memory hschedule)]
    exact a.run_finished memory hschedule

/-- A phase in which the first thread runs last, if it is one of the weights, is ordered. -/
theorem ordered_footprint {stage : Stage} {order : List ℕ} (hperm : order.Perm (List.range threads))
    (h : stage = .weighting → ∃ others, order = others ++ [0]) :
    Ordered (a.footprint threads stage) order := by
  by_cases hstage : stage = .weighting
  · obtain ⟨others, rfl⟩ := h hstage
    subst hstage
    have hnodup := nodup_order hperm
    refine List.pairwise_append.2 ⟨?_, List.pairwise_singleton _ _, ?_⟩
    · refine List.Pairwise.imp_of_mem ?_ (List.nodup_append.1 hnodup).1
      intro t u ht hu hne
      have ht0 : t ≠ 0 := (List.nodup_append.1 hnodup).2.2 t ht 0 List.mem_cons_self
      exact a.separate_cells threads fun s => weighting_slots threads ht0 hne
    · intro t ht u hu
      rw [List.mem_singleton.1 hu]
      have ht0 : t ≠ 0 := (List.nodup_append.1 hnodup).2.2 t ht 0 List.mem_cons_self
      exact a.separate_cells threads fun s => weighting_slots threads ht0 ht0
  · exact (a.separate_footprint threads hstage).ordered hperm

theorem ends_eq {schedule schedule' : ℕ → List ℕ} (hschedule : IsSchedule threads schedule)
    (hschedule' : IsSchedule threads schedule') (hlast : a.FirstLast threads schedule)
    (hlast' : a.FirstLast threads schedule') {m m' : (c : BlockCell) → BlockCell.Value F O c}
    (hm : Ends threads (a.block threads memory) schedule m)
    (hm' : Ends threads (a.block threads memory) schedule' m') : m = m' := by
  rw [ends_iff hschedule (a.run_finished memory hschedule)] at hm
  rw [ends_iff hschedule' (a.run_finished memory hschedule')] at hm'
  have hordered : ∀ {schedule : ℕ → List ℕ}, IsSchedule threads schedule →
      a.FirstLast threads schedule → ∀ n (hn : n < (a.phases threads).length),
        Ordered (a.phases threads)[n] (schedule n) := by
    intro schedule hschedule hlast n hn
    have hn' : n < (a.stages threads).length := a.length_phases ▸ hn
    have hphase : (a.phases threads)[n] = a.footprint threads (a.stages threads)[n] :=
      List.getElem_map _
    rw [hphase]
    refine a.ordered_footprint (hschedule n) fun h => hlast n ?_
    rw [List.getElem?_eq_getElem hn', h]
  rw [← hm, ← hm', (a.block_followsPlan memory).run_eq hschedule hschedule'
    (hordered hschedule hlast) (hordered hschedule' hlast') le_rfl]

/-- The kernels keep to the law of runs. -/
theorem run_law (threads : ℕ) : a.RunLaw memory threads := by
  refine ⟨fun schedule hschedule => ⟨⟨_, _, a.run_finished memory hschedule, rfl⟩, ?_⟩, ?_⟩
  · intro n hn
    exact a.not_races memory hschedule hn
  · intro schedule schedule' hschedule hschedule' hlast hlast' m m' hm hm'
    exact a.ends_eq memory hschedule hschedule' hlast hlast' hm hm'

/-! ### The race -/

/-- In the phase of the weights of the first chunk a thread performs what each thread performs
there. -/
theorem performs_first {t : ℕ} (ht : t < threads) (hrows : a.kvRows ≠ 0) {x : Access BlockCell}
    (hx : x = .read (.shared (a.scratch threads)) ∨
      t = 0 ∧ x = .write (.shared (a.scratch threads))) :
    (a.thread threads t).Performs x (2 + ((halvings (threads / 2)).length + 0))
      fun _ _ => False := by
  obtain ⟨bases, hbases⟩ : ∃ bases, strided 0 a.kvRows threads = 0 :: bases := by
    have hmem : 0 ∈ strided 0 a.kvRows threads :=
      (mem_strided (Nat.zero_lt_of_lt ht)).2 ⟨Nat.pos_of_ne_zero hrows, Nat.zero_mod _⟩
    cases hlist : strided 0 a.kvRows threads with
    | nil => exact nomatch hlist ▸ hmem
    | cons base bases => exact ⟨bases, by rw [strided_eq_cons hlist]⟩
  rw [FusedAttention.thread, hbases]
  refine (a.within_stageQuery ht).bind_performs fun _ => .bind (.bind ?_)
  rw [Nat.add_comm 2]
  refine (a.within_stageChunk ht 0).bind_performs fun _ => Thread.performs_barrier_bind ?_
  refine (a.within_score ht 0).bind_performs fun score => ?_
  refine (a.within_publish ht (u := .scoring) rfl rfl).bind_performs fun _ =>
    Thread.performs_barrier_bind ?_
  refine .bind (Thread.performs_forEach_barrier (n := 0) (a.within_combineRound ht a.ops.fmaxf) ?_)
  rcases hx with rfl | ⟨rfl, rfl⟩
  · exact Or.inl ⟨rfl, rfl⟩
  · exact Or.inr fun maximum => Or.inr (Or.inl ⟨rfl, rfl⟩)

theorem exists_races (h2 : 2 ≤ threads) (hrows : a.kvRows ≠ 0) {schedule : ℕ → List ℕ}
    (hschedule : IsSchedule threads schedule) :
    ∃ n, (run schedule (a.block threads memory) n).Races (schedule n) := by
  refine ⟨2 + ((halvings (threads / 2)).length + 0), ?_⟩
  have hread : PerformsIn (a.block threads memory) 1 (.read (.shared (a.scratch threads)))
      (2 + ((halvings (threads / 2)).length + 0)) :=
    a.performs_first h2 hrows (Or.inl rfl)
  have hwrite : PerformsIn (a.block threads memory) 0 (.write (.shared (a.scratch threads)))
      (2 + ((halvings (threads / 2)).length + 0)) :=
    a.performs_first (Nat.zero_lt_of_lt h2) hrows (Or.inr ⟨rfl, rfl⟩)
  exact races_of_performs (hschedule _) h2 (Nat.zero_lt_of_lt h2) Nat.one_ne_zero
    (PerformsIn.run (k := 0) hschedule h2 hread)
    (PerformsIn.run (k := 0) hschedule (Nat.zero_lt_of_lt h2) hwrite)

/-- A block is free of its schedule exactly when it has one thread, or no key. -/
theorem scheduleFree_iff (hpos : 0 < threads) :
    a.ScheduleFree memory threads ↔ threads = 1 ∨ a.kvRows = 0 := by
  constructor
  · rintro ⟨-, hfree⟩
    by_contra hnot
    rw [not_or] at hnot
    have hrange : IsSchedule threads fun _ => List.range threads := fun _ => List.Perm.refl _
    obtain ⟨n, hn⟩ := a.exists_races memory (by omega) hnot.2 hrange
    exact hfree _ hrange n hn
  · intro h
    have hlast : ∀ schedule, IsSchedule threads schedule → a.FirstLast threads schedule := by
      intro schedule hschedule n hn
      rcases h with rfl | hrows
      · exact ⟨[], List.perm_singleton.1 (hschedule n)⟩
      · rw [stages, strided_of_le (Nat.le_of_eq hrows) hpos] at hn
        cases n with
        | zero => cases hn
        | succ n => cases hn
    refine ⟨fun schedule schedule' hschedule hschedule' m m' hm hm' i => ?_,
      fun schedule hschedule n hraces => ?_⟩
    · rw [a.ends_eq memory hschedule hschedule' (hlast _ hschedule) (hlast _ hschedule') hm hm']
    · rcases h with rfl | hrows
      · obtain ⟨t, ht, u, hu, hne, -⟩ := hraces
        rw [mem_order (hschedule n), Nat.lt_one_iff] at ht hu
        exact hne (ht.trans hu.symm)
      · refine a.not_races memory hschedule (fun hn => ?_) hraces
        rw [stages, strided_of_le (Nat.le_of_eq hrows) hpos] at hn
        cases n with
        | zero => cases hn
        | succ n => cases hn

end FusedAttention

/-! ### The kernels -/

/-- The four fused kernels under every schedule of a block of a power of two threads, over any
inputs and any contents of the shared memory.

* The output is free of the schedule, and no phase races, exactly when the block has one thread or
  there is no key.
* Every schedule ends, only the phases of the weights can race, and schedules under which the first
  thread runs last in these phases leave the same memory. -/
theorem fusedKernels_scheduleFree_iff {F : Type} (ops : FloatOps F) (k : ℕ)
    (shape : AttentionShape) (scale : F) (causal : Bool) (blockIdx : ℕ)
    (queries keys values : ℕ → F) (queries' keys' values' : ℕ → UInt16)
    (memory : (c : BlockCell) → c.Value F F) (memory' : (c : BlockCell) → c.Value F UInt16) :
    (((nnisAttentionFusedF32 ops queries keys values shape scale causal blockIdx).ScheduleFree
        memory (2 ^ k) ↔ 2 ^ k = 1 ∨ shape.kvRows = 0) ∧
      ((nnisAttentionFusedMultiheadF32 ops queries keys values shape scale causal
        blockIdx).ScheduleFree memory (2 ^ k) ↔ 2 ^ k = 1 ∨ shape.kvRows = 0) ∧
      ((nnisAttentionFusedBf16 ops queries' keys' values' shape scale causal blockIdx).ScheduleFree
        memory' (2 ^ k) ↔ 2 ^ k = 1 ∨ shape.kvRows = 0) ∧
      ((nnisAttentionFusedMultiheadBf16 ops queries' keys' values' shape scale causal
        blockIdx).ScheduleFree memory' (2 ^ k) ↔ 2 ^ k = 1 ∨ shape.kvRows = 0)) ∧
    (nnisAttentionFusedF32 ops queries keys values shape scale causal blockIdx).RunLaw memory
        (2 ^ k) ∧
      (nnisAttentionFusedMultiheadF32 ops queries keys values shape scale causal blockIdx).RunLaw
        memory (2 ^ k) ∧
      (nnisAttentionFusedBf16 ops queries' keys' values' shape scale causal blockIdx).RunLaw
        memory' (2 ^ k) ∧
      (nnisAttentionFusedMultiheadBf16 ops queries' keys' values' shape scale causal
        blockIdx).RunLaw memory' (2 ^ k) := by
  have hpos : 0 < 2 ^ k := Nat.two_pow_pos k
  refine ⟨⟨?_, ?_, ?_, ?_⟩, ?_, ?_, ?_, ?_⟩
  · exact FusedAttention.scheduleFree_iff _ memory hpos
  · exact FusedAttention.scheduleFree_iff _ memory hpos
  · exact FusedAttention.scheduleFree_iff _ memory' hpos
  · exact FusedAttention.scheduleFree_iff _ memory' hpos
  · exact FusedAttention.run_law _ memory _
  · exact FusedAttention.run_law _ memory _
  · exact FusedAttention.run_law _ memory' _
  · exact FusedAttention.run_law _ memory' _

namespace FusedAttention

open Block

/-- The operations of single precision, with the values of the exponential at zero, at negative
infinity and where it overflows. -/
def singlePrecision : FloatOps F32 where
  ofBits bits := .ofBits bits.toNat
  toBits x := UInt32.ofNat x.toBits
  add := .add
  sub := .sub
  mul := .mul
  div := .div
  fmaf := .mulAdd
  fmaxf := .max
  expf x :=
    if x.isZero then .ofBits 0x3F800000
    else if x.negative then .zero false
    else .infinite false

/-- A query of 200 over two keys of one, with the values one and three. -/
def twoKeys : FusedAttention F32 F32 F32 :=
  nnisAttentionFusedF32 singlePrecision (fun _ => .ofBits 0x43480000) (fun _ => .ofBits 0x3F800000)
    (fun i => if i = 0 then .ofBits 0x3F800000 else .ofBits 0x40400000) ⟨1, 1, 2, 1⟩
    (.ofBits 0x3F800000) false 0

/-- A memory of zeros. -/
def zeroMemory : (c : BlockCell) → c.Value F32 F32
  | .shared _ => .zero false
  | .output _ => .zero false

/-- The second thread first: the mean of the values. -/
private theorem run_descending :
    (run (fun _ => [1, 0]) (twoKeys.block 2 zeroMemory) 8).memory (.output 0) =
      .ofBits 0x40000000 := by
  decide +kernel

/-- The first thread first: the second one takes its weight for the maximum, and overflows. -/
private theorem run_ascending :
    (run (fun _ => [0, 1]) (twoKeys.block 2 zeroMemory) 8).memory (.output 0) ≠
      .ofBits 0x40000000 := by
  decide +kernel

/-- Two threads over two equal keys: the order of the threads decides between the mean of the values
and no number. -/
theorem not_scheduleFree_twoKeys : ¬ twoKeys.ScheduleFree zeroMemory 2 := by
  rintro ⟨hsame, -⟩
  have hascending : IsSchedule 2 fun _ => [0, 1] := fun _ => .refl _
  have hdescending : IsSchedule 2 fun _ => [1, 0] := fun _ => .swap 0 1 []
  have heq := hsame _ _ hascending hdescending _ _
    ⟨_, twoKeys.run_finished zeroMemory hascending, rfl⟩
    ⟨_, twoKeys.run_finished zeroMemory hdescending, rfl⟩ 0
  exact run_ascending (heq.trans run_descending)

end FusedAttention

end NNIS
