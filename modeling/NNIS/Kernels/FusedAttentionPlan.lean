import NNIS.Kernels.FusedAttention
import NNIS.Parallel.Schedule

/-!
# The phases of the fused attention kernels

The cells that a thread of a fused attention kernel reads and writes between two barriers, and the
list of its phases. All phases but one in each chunk keep the threads apart. In the phase that turns
scores to weights every thread reads the maximum from the first cell of the tree, which the first
thread overwrites in the same phase.

## Main definitions

* `FusedAttention.Slot` — the places of the shared memory and of the output row.
* `FusedAttention.Stage`, `FusedAttention.stages` — the phases of a block.
* `FusedAttention.footprint` — the cells of a phase.

## Main results

* `FusedAttention.separate_footprint` — the phases other than those of the weights.
* `FusedAttention.follows_thread` — a thread follows the phases.
-/

set_option autoImplicit false

namespace NNIS

namespace FusedAttention

variable {F I O : Type} (a : FusedAttention F I O) (threads : ℕ)

/-! ### Places -/

/-- The places of the shared memory, by the tile they belong to, and of the output row. -/
inductive Slot
  | query (i : ℕ)
  | key (i : ℕ)
  | value (i : ℕ)
  | score (t : ℕ)
  | scratch (t : ℕ)
  | acc (c : ℕ)
  | output (c : ℕ)

/-- The cell of a place. -/
def cell : Slot → BlockCell
  | .query i => .shared (qSh + i)
  | .key i => .shared (a.kTile + i)
  | .value i => .shared (a.vTile threads + i)
  | .score t => .shared (a.scores threads + t)
  | .scratch t => .shared (a.scratch threads + t)
  | .acc c => .shared (a.acc threads + c)
  | .output c => .output (a.output + a.row * a.valueDim + c)

/-- A place lies in its tile. -/
def InBounds : Slot → Prop
  | .query i => i < a.headDim
  | .key i => i < threads * a.headDim
  | .value i => i < threads * a.valueDim
  | .score t => t < threads
  | .scratch t => t < threads
  | .acc c => c < a.valueDim
  | .output _ => True

/-- The tiles do not overlap. -/
theorem cell_injOn {s s' : Slot} (h : a.InBounds threads s) (h' : a.InBounds threads s')
    (heq : a.cell threads s = a.cell threads s') : s = s' := by
  cases s <;> cases s' <;>
    simp only [InBounds, cell, BlockCell.shared.injEq, BlockCell.output.injEq, reduceCtorEq, acc,
      scratch, scores, vTile, kTile, qSh, Slot.query.injEq, Slot.key.injEq, Slot.value.injEq,
      Slot.score.injEq, Slot.scratch.injEq, Slot.acc.injEq, Slot.output.injEq] at h h' heq ⊢ <;>
    omega

/-! ### The phases -/

/-- The phases of a block, by what its threads do in them. -/
inductive Stage
  /-- Stage the tiles of the next chunk, or store the row. -/
  | edge
  /-- Compute and publish the scores. -/
  | scoring
  /-- A round of a reduction. -/
  | combining (stride : ℕ)
  /-- Read the maximum and publish the weights. -/
  | weighting
  /-- Read the sum and rescale the accumulators. -/
  | rescaling
  /-- Add the weighted values of the chunk. -/
  | accumulating

/-- The places that a thread may read in a phase. -/
def Stage.reads (t : ℕ) : Stage → Slot → Prop
  | .edge, .acc c => c % threads = t
  | .scoring, .query _ | .scoring, .key _ => True
  | .combining stride, .scratch i => t < stride ∧ (i = t ∨ i = t + stride)
  | .weighting, .scratch i => i = 0
  | .rescaling, .scratch i => i = 0
  | .rescaling, .acc c => c % threads = t
  | .accumulating, .score _ | .accumulating, .value _ => True
  | .accumulating, .acc c => c % threads = t
  | _, _ => False

/-- The places that a thread may write in a phase. -/
def Stage.writes (t : ℕ) : Stage → Slot → Prop
  | .edge, .query i | .edge, .key i | .edge, .value i => i % threads = t
  | .edge, .acc c | .edge, .output c => c % threads = t
  | .scoring, .score i | .scoring, .scratch i => i = t
  | .combining stride, .scratch i => t < stride ∧ i = t
  | .weighting, .score i | .weighting, .scratch i => i = t
  | .rescaling, .acc c => c % threads = t
  | .accumulating, .acc c => c % threads = t
  | _, _ => False

/-- The cells of a phase. -/
def footprint (stage : Stage) (t : ℕ) : Footprint BlockCell where
  reads := {c | ∃ s, a.InBounds threads s ∧ stage.reads threads t s ∧ a.cell threads s = c}
  writes := {c | ∃ s, a.InBounds threads s ∧ stage.writes threads t s ∧ a.cell threads s = c}

/-- The phases of a chunk after its staging. -/
def chunkStages : List Stage :=
  .scoring :: ((halvings (threads / 2)).map .combining ++
    .weighting :: ((halvings (threads / 2)).map .combining ++ [.rescaling, .accumulating]))

/-- The phases of a block. -/
def stages : List Stage :=
  .edge :: (strided 0 a.kvRows threads).flatMap fun _ => chunkStages threads ++ [.edge]

/-- The footprints of the phases of a block. -/
def phases : List (ℕ → Footprint BlockCell) := (a.stages threads).map (a.footprint threads)

/-- The threads of a phase other than that of the weights keep to separate places. -/
theorem separate_slots {stage : Stage} (h : stage ≠ .weighting) {t u : ℕ} (hne : t ≠ u) {s : Slot}
    (hwrite : stage.writes threads t s) :
    ¬ stage.reads threads u s ∧ ¬ stage.writes threads u s := by
  cases stage <;> cases s <;> simp only [Stage.writes] at hwrite <;>
    simp only [Stage.reads, Stage.writes, not_false_eq_true, true_and] <;> first
      | exact absurd rfl h
      | omega

/-- In the phase of the weights only the first thread writes what another one reads. -/
theorem weighting_slots {t u : ℕ} (ht : t ≠ 0) (hne : t ≠ u) {s : Slot}
    (hwrite : Stage.weighting.writes threads t s) :
    ¬ Stage.weighting.reads threads u s ∧ ¬ Stage.weighting.writes threads u s := by
  cases s <;> simp only [Stage.writes] at hwrite <;>
    simp only [Stage.reads, Stage.writes, not_false_eq_true, true_and] <;> omega

/-- Separate places are separate cells. -/
theorem separate_cells {stage : Stage} {t u : ℕ}
    (h : ∀ s, stage.writes threads t s → ¬ stage.reads threads u s ∧ ¬ stage.writes threads u s) :
    ∀ c ∈ (a.footprint threads stage t).writes,
      c ∉ (a.footprint threads stage u).reads ∧ c ∉ (a.footprint threads stage u).writes := by
  rintro _ ⟨s, hs, hwrite, rfl⟩
  obtain ⟨hread, hwrite'⟩ := h s hwrite
  constructor
  · rintro ⟨s', hs', hread', heq⟩
    rw [a.cell_injOn threads hs' hs heq] at hread'
    exact hread hread'
  · rintro ⟨s', hs', hwrite'', heq⟩
    rw [a.cell_injOn threads hs' hs heq] at hwrite''
    exact hwrite' hwrite''

theorem separate_footprint {stage : Stage} (h : stage ≠ .weighting) :
    Separate threads (a.footprint threads stage) :=
  fun _ _ _ _ hne => a.separate_cells threads fun _ => separate_slots threads h hne

/-! ### A thread follows the phases -/

section Follows

variable {threads} {t : ℕ} {u : Stage}

theorem within_load {s : Slot} {i : ℕ} (hs : a.InBounds threads s) (hread : u.reads threads t s)
    (hcell : a.cell threads s = .shared i) :
    (loadShared i : ThreadM F O F).Within (a.footprint threads u t) :=
  @Thread.Within.load BlockCell (BlockCell.Value F O) _ (.shared i) ⟨s, hs, hread, hcell⟩

theorem within_store {s : Slot} {i : ℕ} {v : F} (hs : a.InBounds threads s)
    (hwrite : u.writes threads t s) (hcell : a.cell threads s = .shared i) :
    (storeShared i v : ThreadM F O Unit).Within (a.footprint threads u t) :=
  @Thread.Within.store BlockCell (BlockCell.Value F O) _ (.shared i) v ⟨s, hs, hwrite, hcell⟩

theorem within_stageQuery (ht : t < threads) :
    (a.stageQuery threads t).Within (a.footprint threads .edge t) := by
  refine .bind (.forEach fun i hi => ?_) fun _ => .forEach fun c hc => ?_
  · obtain ⟨hlt, hmod⟩ := (mem_strided ht).1 hi
    exact a.within_store (s := .query i) hlt hmod rfl
  · obtain ⟨hlt, hmod⟩ := (mem_strided ht).1 hc
    exact a.within_store (s := .acc c) hlt hmod rfl

theorem within_stageChunk (ht : t < threads) (base : ℕ) :
    (a.stageChunk threads t base).Within (a.footprint threads .edge t) := by
  refine .bind (.forEach fun idx hidx => ?_) fun _ => .forEach fun idx hidx => ?_
  · obtain ⟨hlt, hmod⟩ := (mem_strided ht).1 hidx
    exact a.within_store (s := .key idx) hlt hmod rfl
  · obtain ⟨hlt, hmod⟩ := (mem_strided ht).1 hidx
    exact a.within_store (s := .value idx) hlt hmod rfl

theorem mul_add_lt {t e n m : ℕ} (ht : t < n) (he : e < m) : t * m + e < n * m := by
  calc t * m + e < t * m + m := Nat.add_lt_add_left he _
    _ = (t + 1) * m := (Nat.succ_mul ..).symm
    _ ≤ n * m := Nat.mul_le_mul_right m ht

theorem within_score (ht : t < threads) (base : ℕ) :
    (a.score t base).Within (a.footprint threads .scoring t) := by
  rw [score]
  refine .ite (fun _ => .bind (.fold fun score e he => ?_) fun _ => .pure _) fun _ => .pure _
  have he' := List.mem_range.1 he
  refine .bind (a.within_load (s := .query e) he' trivial rfl) fun q => ?_
  refine .bind (a.within_load (s := .key (t * a.headDim + e)) (mul_add_lt ht he') trivial rfl)
    fun k => .pure _

theorem within_publish (ht : t < threads) {value : F} {u : Stage}
    (hscore : u.writes threads t (.score t)) (hscratch : u.writes threads t (.scratch t)) :
    (a.publish threads t value).Within (a.footprint threads u t) :=
  .bind (a.within_store (s := .score t) ht hscore rfl) fun _ =>
    a.within_store (s := .scratch t) ht hscratch rfl

theorem within_combineRound (ht : t < threads) (combine : F → F → F) :
    ∀ stride ∈ halvings (threads / 2), (a.combineRound threads t combine stride).Within
      (a.footprint threads (.combining stride) t) := by
  intro stride hstride
  have hle : stride ≤ threads / 2 := le_of_mem_halvings hstride
  refine .ite (fun hlt => ?_) fun _ => .pure ()
  have hpair : t + stride < threads := by omega
  refine .bind (a.within_load (s := .scratch t) ht ⟨hlt, Or.inl rfl⟩ rfl) fun left => ?_
  refine .bind (a.within_load (s := .scratch (t + stride)) hpair ⟨hlt, Or.inr rfl⟩ rfl)
    fun right => ?_
  exact a.within_store (s := .scratch t) ht ⟨hlt, rfl⟩ rfl

theorem follows_reduce (ht : t < threads) (combine : F → F → F) {fps : List (Footprint BlockCell)}
    {post : Unit → List (Footprint BlockCell) → Prop} (hpost : post () fps) :
    (a.reduce threads t combine).Follows
      (((halvings (threads / 2)).map fun stride => a.footprint threads (.combining stride) t) ++
        fps)
      post :=
  Thread.follows_forEach_barrier (a.within_combineRound ht combine) hpost

theorem within_rescaleAcc (ht : t < threads) (rescale : F) :
    (a.rescaleAcc threads t rescale).Within (a.footprint threads .rescaling t) := by
  refine .forEach fun c hc => ?_
  obtain ⟨hlt, hmod⟩ := (mem_strided ht).1 hc
  exact .bind (a.within_load (s := .acc c) hlt hmod rfl) fun _ =>
    a.within_store (s := .acc c) hlt hmod rfl

theorem within_accumulate (ht : t < threads) :
    (a.accumulate threads t).Within (a.footprint threads .accumulating t) := by
  refine .forEach fun c hc => ?_
  obtain ⟨hlt, hmod⟩ := (mem_strided ht).1 hc
  refine .bind (a.within_load (s := .acc c) hlt hmod rfl) fun total =>
    .bind (.fold fun total r hr => ?_) fun _ => a.within_store (s := .acc c) hlt hmod rfl
  have hr' := List.mem_range.1 hr
  refine .bind (a.within_load (s := .score r) hr' trivial rfl) fun weight => ?_
  exact .bind (a.within_load (s := .value (r * a.valueDim + c)) (mul_add_lt hr' hlt) trivial rfl)
    fun value => .pure _

theorem within_storeRow (ht : t < threads) (runningSum : F) :
    (a.storeRow threads t runningSum).Within (a.footprint threads .edge t) := by
  refine .forEach fun c hc => ?_
  obtain ⟨hlt, hmod⟩ := (mem_strided ht).1 hc
  exact .bind (a.within_load (s := .acc c) hlt hmod rfl) fun total =>
    @Thread.Within.store BlockCell (BlockCell.Value F O) _ (.output _) _
      ⟨.output c, trivial, hmod, rfl⟩

/-- The footprints of a thread in the phases of a chunk after its staging. -/
theorem map_chunkStages (fps : List (Footprint BlockCell)) :
    (chunkStages threads).map (fun stage => a.footprint threads stage t) ++ fps =
      a.footprint threads .scoring t ::
        ((halvings (threads / 2)).map (fun stride => a.footprint threads (.combining stride) t) ++
          a.footprint threads .weighting t ::
            ((halvings (threads / 2)).map
              (fun stride => a.footprint threads (.combining stride) t) ++
              a.footprint threads .rescaling t ::
                a.footprint threads .accumulating t :: fps)) := by
  simp only [chunkStages, List.map_cons, List.map_append, List.map_map, Function.comp_def,
    List.map_nil, List.cons_append, List.append_assoc, List.nil_append]

theorem follows_chunk (ht : t < threads) (running : F × F) (base : ℕ)
    (fps : List (Footprint BlockCell)) :
    (a.chunk threads t running base).Follows (a.footprint threads .edge t ::
      ((chunkStages threads).map (fun stage => a.footprint threads stage t) ++
        a.footprint threads .edge t :: fps))
      fun _ fps' => fps' = a.footprint threads .edge t :: fps := by
  have hpos : 0 < threads := Nat.zero_lt_of_lt ht
  rw [a.map_chunkStages]
  refine (a.within_stageChunk ht base).bind_follows fun _ => Thread.follows_barrier_bind ?_
  refine (a.within_score ht base).bind_follows fun score => ?_
  refine (a.within_publish ht (u := .scoring) rfl rfl).bind_follows fun _ =>
    Thread.follows_barrier_bind ?_
  refine .bind (a.follows_reduce ht a.ops.fmaxf ?_)
  refine (a.within_load (u := .weighting) (s := .scratch 0) hpos rfl rfl).bind_follows
    fun maximum => ?_
  refine (a.within_publish ht (u := .weighting) rfl rfl).bind_follows fun _ =>
    Thread.follows_barrier_bind ?_
  refine .bind (a.follows_reduce ht a.ops.add ?_)
  refine (a.within_load (u := .rescaling) (s := .scratch 0) hpos rfl rfl).bind_follows
    fun sum => ?_
  refine (a.within_rescaleAcc ht _).bind_follows fun _ => Thread.follows_barrier_bind ?_
  exact (a.within_accumulate ht).bind_follows fun _ => Thread.follows_barrier_bind rfl

theorem follows_thread (ht : t < threads) :
    (a.thread threads t).Follows ((a.phases threads).map (· t)) Thread.Done := by
  have hphases : (a.phases threads).map (· t) = a.footprint threads .edge t ::
      ((strided 0 a.kvRows threads).flatMap (fun _ =>
        (chunkStages threads).map (fun stage => a.footprint threads stage t) ++
          [a.footprint threads .edge t]) ++ []) := by
    simp only [phases, stages, List.map_cons, List.map_flatMap, List.map_map, List.map_append,
      Function.comp_def, List.map_nil, List.append_nil]
  rw [hphases]
  refine (a.within_stageQuery ht).bind_follows fun _ => .bind (Thread.follows_fold
    (fun running base _ fps => a.follows_chunk ht running base fps) fun running => ?_)
  exact (a.within_storeRow ht running.2).follows fun _ => rfl

end Follows

end FusedAttention

end NNIS
