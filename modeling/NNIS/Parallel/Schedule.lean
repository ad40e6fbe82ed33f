import Mathlib.Data.List.TakeWhile
import NNIS.Parallel.Footprint

/-!
# Phases in any order

When no thread writes a cell that a later thread of the same phase reads or writes, every thread of
the phase runs as if it were the first. What such phases leave does not depend on their orders.

## Main definitions

* `Separate` — no thread of a phase writes a cell that another one reads or writes.
* `Ordered` — no thread of a phase writes a cell that a later one reads or writes.
* `Block.FollowsPlan` — every thread of a block follows the footprints of the phases.

## Main results

* `Block.phase_spec` — what an ordered phase leaves.
* `Block.FollowsPlan.run_eq` — runs of ordered phases agree.
* `Block.not_races_of_separate`, `Block.races_of_performs` — phases without and with a race.
-/

set_option autoImplicit false

namespace NNIS

variable {C : Type} {Val : C → Type} {α : Type}

/-- No thread of a phase writes a cell that another one reads or writes. -/
def Separate (width : ℕ) (f : ℕ → Footprint C) : Prop :=
  ∀ t < width, ∀ u < width, t ≠ u → ∀ c ∈ (f t).writes, c ∉ (f u).reads ∧ c ∉ (f u).writes

/-- No thread of a phase writes a cell that a later one reads or writes. -/
def Ordered (f : ℕ → Footprint C) (order : List ℕ) : Prop :=
  order.Pairwise fun t u => ∀ c ∈ (f t).writes, c ∉ (f u).reads ∧ c ∉ (f u).writes

theorem Separate.ordered {width : ℕ} {f : ℕ → Footprint C} (h : Separate width f) {order : List ℕ}
    (horder : order.Perm (List.range width)) : Ordered f order := by
  refine List.Pairwise.imp_of_mem ?_ (horder.nodup_iff.2 List.nodup_range)
  intro t u ht hu hne
  exact h t (List.mem_range.1 (horder.mem_iff.1 ht)) u (List.mem_range.1 (horder.mem_iff.1 hu)) hne

namespace Block

variable [DecidableEq C]

/-- What an ordered phase leaves: every thread ran from the memory at the beginning of the phase,
and a cell holds what the thread that may write it left. -/
theorem phase_spec {f : ℕ → Footprint C} {order : List ℕ} (horder : Ordered f order)
    (hnodup : order.Nodup) (b : Block C Val α) (h : ∀ t ∈ order, (b.thread t).Begins (f t)) :
    (∀ t ∈ order, (b.phase order).thread t = ((b.thread t).advance b.memory).1) ∧
      (∀ t ∈ order, ∀ c ∈ (f t).writes,
        (b.phase order).memory c = ((b.thread t).advance b.memory).2 c) ∧
      ∀ c, (∀ t ∈ order, c ∉ (f t).writes) → (b.phase order).memory c = b.memory c := by
  induction order generalizing b with
  | nil => exact ⟨fun _ h => (nomatch h), fun _ h => (nomatch h), fun _ _ => rfl⟩
  | cons t order ih =>
    obtain ⟨hbefore, horder⟩ := List.pairwise_cons.1 horder
    obtain ⟨hnotMem, hnodup⟩ := List.nodup_cons.1 hnodup
    have hne : ∀ u ∈ order, u ≠ t := fun u hu heq => hnotMem (heq ▸ hu)
    have ht := h t List.mem_cons_self
    -- The first thread changes no cell that a later one accesses.
    have hframe : ∀ c, c ∉ (f t).writes → (b.turn t).memory c = b.memory c :=
      fun c hc => ht.advance_frame b.memory hc
    have hthread : ∀ u ∈ order, (b.turn t).thread u = b.thread u :=
      fun u hu => b.turn_thread_of_ne (hne u hu)
    have hlater : ∀ u ∈ order, ((b.thread u).advance (b.turn t).memory).1 =
        ((b.thread u).advance b.memory).1 ∧ ∀ c ∈ (f u).writes,
          ((b.thread u).advance (b.turn t).memory).2 c = ((b.thread u).advance b.memory).2 c := by
      intro u hu
      obtain ⟨hsame, hcells⟩ := (h u (List.mem_cons_of_mem t hu)).advance_congr
        fun c hc => hframe c fun hwrite => (hbefore u hu c hwrite).1 hc
      exact ⟨hsame, fun c hc => hcells c (hframe c fun hwrite => (hbefore u hu c hwrite).2 hc)⟩
    obtain ⟨hthreads, hwritten, hrest⟩ := ih horder hnodup (b.turn t) fun u hu => by
      rw [hthread u hu]
      exact h u (List.mem_cons_of_mem t hu)
    refine ⟨fun u hu => ?_, fun u hu c hc => ?_, fun c hc => ?_⟩
    · rcases List.mem_cons.1 hu with rfl | hu
      · rw [phase_cons, phase_thread_of_notMem _ hnotMem, turn_thread_self]
      · rw [phase_cons, hthreads u hu, hthread u hu, (hlater u hu).1]
    · rcases List.mem_cons.1 hu with rfl | hu
      · exact hrest c fun v hv => (hbefore v hv c hc).2
      · rw [phase_cons, hwritten u hu c hc, hthread u hu, (hlater u hu).2 c hc]
    · rw [phase_cons, hrest c fun u hu => hc u (List.mem_cons_of_mem t hu)]
      exact hframe c (hc t List.mem_cons_self)

/-- Ordered phases of the same threads leave the same. -/
theorem phase_eq_of_ordered {f : ℕ → Footprint C} {order order' : List ℕ} (horder : Ordered f order)
    (horder' : Ordered f order') (hnodup : order.Nodup) (hperm : order.Perm order')
    (b : Block C Val α) (h : ∀ t ∈ order, (b.thread t).Begins (f t)) :
    b.phase order = b.phase order' := by
  have h' : ∀ t ∈ order', (b.thread t).Begins (f t) := fun t ht => h t (hperm.mem_iff.2 ht)
  obtain ⟨hthread, hwritten, hrest⟩ := phase_spec horder hnodup b h
  obtain ⟨hthread', hwritten', hrest'⟩ := phase_spec horder' (hperm.nodup_iff.1 hnodup) b h'
  ext t
  · by_cases ht : t ∈ order
    · rw [hthread t ht, hthread' t (hperm.mem_iff.1 ht)]
    · rw [phase_thread_of_notMem b ht, phase_thread_of_notMem b (mt hperm.mem_iff.2 ht)]
  · by_cases hc : ∃ u ∈ order, t ∈ (f u).writes
    · obtain ⟨u, hu, hc⟩ := hc
      rw [hwritten u hu t hc, hwritten' u (hperm.mem_iff.1 hu) t hc]
    · have hnone : ∀ u ∈ order, t ∉ (f u).writes := fun u hu hmem => hc ⟨u, hu, hmem⟩
      rw [hrest t hnone, hrest' t fun u hu => hnone u (hperm.mem_iff.2 hu)]

/-! ### The turns of a phase -/

/-- A thread runs its part from the memory that the threads before it leave. -/
theorem phase_thread_of_mem {order : List ℕ} (hnodup : order.Nodup) (b : Block C Val α) {t : ℕ}
    (ht : t ∈ order) : (b.phase order).thread t =
      ((b.thread t).advance (b.phase (order.takeWhile (· ≠ t))).memory).1 := by
  induction order generalizing b with
  | nil => exact nomatch ht
  | cons u order ih =>
    obtain ⟨hnotMem, hnodup⟩ := List.nodup_cons.1 hnodup
    rcases eq_or_ne t u with rfl | hne
    · rw [List.takeWhile_cons_of_neg (by simp), phase_cons, phase_thread_of_notMem _ hnotMem,
        turn_thread_self, phase_nil]
    · rw [List.takeWhile_cons_of_pos (by simpa using hne.symm), phase_cons, phase_cons,
        ih hnodup _ (List.mem_of_ne_of_mem hne ht), turn_thread_of_ne b hne]

theorem accessesOf_eq (b : Block C Val α) (order : List ℕ) (t : ℕ) :
    b.accessesOf order t =
      (b.thread t).accesses (b.phase (order.takeWhile (· ≠ t))).memory := by
  rw [accessesOf, phase_thread_of_notMem b fun h => by simpa using List.mem_takeWhile_imp h]

/-! ### Runs -/

/-- Every thread follows the footprints of the phases. -/
def FollowsPlan (width : ℕ) (b : Block C Val α) (phases : List (ℕ → Footprint C)) : Prop :=
  ∀ t < width, (b.thread t).Follows (phases.map (· t)) Thread.Done

/-- Every thread performs its access in the phase with a number. -/
def PerformsIn (b : Block C Val α) (t : ℕ) (a : Access C) (n : ℕ) : Prop :=
  (b.thread t).Performs a n fun _ _ => False

variable {width : ℕ} {b : Block C Val α} {phases : List (ℕ → Footprint C)}

theorem mem_order {order : List ℕ} (hperm : order.Perm (List.range width)) {t : ℕ} :
    t ∈ order ↔ t < width := hperm.mem_iff.trans List.mem_range

theorem nodup_order {order : List ℕ} (hperm : order.Perm (List.range width)) : order.Nodup :=
  hperm.nodup_iff.2 List.nodup_range

/-- After a phase the threads follow the phases left over. -/
theorem FollowsPlan.phase {f g : ℕ → Footprint C} (h : FollowsPlan width b (f :: g :: phases))
    {order : List ℕ} (hperm : order.Perm (List.range width)) :
    FollowsPlan width (b.phase order) (g :: phases) := by
  intro t ht
  rw [phase_thread_of_mem (nodup_order hperm) b ((mem_order hperm).2 ht)]
  rcases (h t ht).advance _ with ⟨a, -, hdone⟩ | hrest
  · exact nomatch Nat.succ.inj hdone
  · exact hrest

/-- After the last phase the threads are done. -/
theorem FollowsPlan.finished {f : ℕ → Footprint C} (h : FollowsPlan width b [f])
    {order : List ℕ} (hperm : order.Perm (List.range width)) : Finished width (b.phase order) := by
  intro t ht
  rw [phase_thread_of_mem (nodup_order hperm) b ((mem_order hperm).2 ht)]
  rcases (h t ht).advance _ with ⟨a, ha, -⟩ | hrest
  · exact ⟨a, ha⟩
  · cases hthread : ((b.thread t).advance (b.phase (order.takeWhile (· ≠ t))).memory).1 with
    | pure a => exact ⟨a, rfl⟩
    | read | write | sync =>
      rw [hthread] at hrest
      exact hrest.elim

theorem FollowsPlan.run {schedule : ℕ → List ℕ} (hschedule : IsSchedule width schedule)
    (h : FollowsPlan width b phases) {n : ℕ} (hn : n < phases.length) :
    FollowsPlan width (Block.run schedule b n) (phases.drop n) := by
  induction n with
  | zero => exact h
  | succ n ih =>
    have hplan := ih (Nat.lt_of_succ_lt hn)
    rw [List.drop_eq_getElem_cons (Nat.lt_of_succ_lt hn), List.drop_eq_getElem_cons hn] at hplan
    rw [List.drop_eq_getElem_cons hn]
    exact hplan.phase (hschedule n)

/-- A block that follows a plan is done after its phases. -/
theorem FollowsPlan.run_finished {schedule : ℕ → List ℕ} (hschedule : IsSchedule width schedule)
    (h : FollowsPlan width b phases) (hne : phases ≠ []) :
    Finished width (Block.run schedule b phases.length) := by
  obtain ⟨n, hn⟩ := Nat.exists_eq_succ_of_ne_zero (mt List.length_eq_zero_iff.1 hne)
  have hlt : n < phases.length := hn ▸ Nat.lt_succ_self n
  have hplan := h.run hschedule hlt
  rw [List.drop_eq_getElem_cons hlt, List.drop_of_length_le (Nat.le_of_eq hn)] at hplan
  rw [hn]
  exact hplan.finished (hschedule n)

/-- Runs of a plan whose phases are ordered under both schedules agree. -/
theorem FollowsPlan.run_eq {schedule schedule' : ℕ → List ℕ}
    (hschedule : IsSchedule width schedule) (hschedule' : IsSchedule width schedule')
    (h : FollowsPlan width b phases)
    (horder : ∀ n (hn : n < phases.length), Ordered phases[n] (schedule n))
    (horder' : ∀ n (hn : n < phases.length), Ordered phases[n] (schedule' n)) {n : ℕ}
    (hn : n ≤ phases.length) : Block.run schedule b n = Block.run schedule' b n := by
  induction n with
  | zero => rfl
  | succ n ih =>
    have hplan := h.run hschedule hn
    rw [List.drop_eq_getElem_cons hn] at hplan
    rw [Block.run, Block.run, ← ih (Nat.le_of_succ_le hn)]
    exact phase_eq_of_ordered (horder n hn) (horder' n hn) (nodup_order (hschedule n))
      ((hschedule n).trans (hschedule' n).symm) _ fun t ht =>
        (hplan t ((mem_order (hschedule n)).1 ht)).begins

/-! ### Races -/

/-- There is no race in a phase whose threads keep to separate cells. -/
theorem not_races_of_separate {f : ℕ → Footprint C} (h : FollowsPlan width b (f :: phases))
    (hf : Separate width f) {order : List ℕ} (hperm : order.Perm (List.range width)) :
    ¬ b.Races order := by
  rintro ⟨t, ht, u, hu, hne, c, hread, hwrite⟩
  rw [mem_order hperm] at ht hu
  rw [accessesOf_eq] at hread hwrite
  exact (hf u hu t ht hne.symm c (((h u hu).accesses _).2 c hwrite)).1
    (((h t ht).accesses _).1 c hread)

/-- There is no race when all threads are done. -/
theorem not_races_of_finished (h : Finished width b) {order : List ℕ}
    (hperm : order.Perm (List.range width)) : ¬ b.Races order := by
  rintro ⟨t, ht, u, hu, hne, c, hread, hwrite⟩
  obtain ⟨r, hr⟩ := h t ((mem_order hperm).1 ht)
  rw [accessesOf_eq, hr] at hread
  exact nomatch hread

theorem PerformsIn.run {schedule : ℕ → List ℕ} (hschedule : IsSchedule width schedule) {t : ℕ}
    (ht : t < width) {a : Access C} {n k : ℕ} (h : PerformsIn b t a (n + k)) :
    PerformsIn (Block.run schedule b n) t a k := by
  induction n generalizing k with
  | zero => rwa [Nat.zero_add] at h
  | succ n ih =>
    have hlater : PerformsIn (Block.run schedule b n) t a (k + 1) := ih (by
      rw [show n + (k + 1) = n + 1 + k by omega]
      exact h)
    rw [PerformsIn, Block.run, phase_thread_of_mem (nodup_order (hschedule n)) _
      ((mem_order (hschedule n)).2 ht)]
    exact (hlater.advance _).2 k rfl

/-- A thread reads in a phase what a different thread writes there. -/
theorem races_of_performs {order : List ℕ} (hperm : order.Perm (List.range width)) {t u : ℕ}
    (ht : t < width) (hu : u < width) (hne : t ≠ u) {c : C} (hread : PerformsIn b t (.read c) 0)
    (hwrite : PerformsIn b u (.write c) 0) : b.Races order := by
  refine ⟨t, (mem_order hperm).2 ht, u, (mem_order hperm).2 hu, hne, c, ?_, ?_⟩
  · rw [accessesOf_eq]
    exact (Thread.Performs.advance hread _).1 rfl
  · rw [accessesOf_eq]
    exact (Thread.Performs.advance hwrite _).1 rfl

end Block

end NNIS
