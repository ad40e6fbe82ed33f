import NNIS.Parallel.Progress
import NNIS.Parallel.TreeReduction

/-!
# Reductions of a block

The threads of a block reduce elements that may be more or fewer than they are: each thread folds
the elements of its residue and publishes its value in a cell of its own, and the published values
are combined along the halving tree, with a barrier after every round. Under every schedule the
first of the published cells then holds the same value.

## Main definitions

* `Thread.laneFold`, `Thread.treeReduce`, `Thread.blockReduce` — the parts of a thread.
* `TreeReduction.ofStrided` — the value of such a reduction.

## Main results

* `Block.Leads.forEach`, `Block.Leads.finish_forEach` — the rules of strided loops.
* `Block.Leads.tree`, `Block.Leads.reduce` — the rules of the tree and of the whole reduction.
-/

set_option autoImplicit false

namespace NNIS

/-- The elements of each residue, folded and combined along the tree. -/
def TreeReduction.ofStrided {α : Type} (combine : α → α → α) (empty : α) (threads count : ℕ)
    (element : ℕ → α) : α :=
  TreeReduction.rounds combine threads fun lane =>
    (strided lane count threads).foldl (fun value i => combine value (element i)) empty

theorem TreeReduction.ofStrided_congr {α : Type} {combine : α → α → α} {empty : α}
    {threads count : ℕ} (hthreads : 0 < threads) {element element' : ℕ → α}
    (h : ∀ i < count, element i = element' i) :
    ofStrided combine empty threads count element =
      ofStrided combine empty threads count element' := by
  refine congrArg (rounds combine threads) (funext fun lane => ?_)
  exact List.foldl_ext _ _ _ fun value i hi => by rw [h i (lt_of_mem_strided hthreads hi)]

namespace Thread

variable {C α β : Type}

/-- Fold the elements of the residue of a thread. -/
def laneFold (combine : α → α → α) (empty : α) (threads count lane : ℕ)
    (element : ℕ → Thread C (fun _ => α) α) : Thread C (fun _ => α) α :=
  fold (strided lane count threads) empty fun value i => do
    let e ← element i
    return combine value e

/-- The part of a thread in a round of the tree. -/
def combineRound (combine : α → α → α) (scratch : ℕ → C) (stride lane : ℕ) :
    Thread C (fun _ => α) Unit :=
  if lane < stride then do
    let left ← @load C (fun _ => α) (scratch lane)
    let right ← @load C (fun _ => α) (scratch (lane + stride))
    @store C (fun _ => α) (scratch lane) (combine left right)
  else pure ()

/-- The rounds of the tree. -/
def treeReduce (combine : α → α → α) (scratch : ℕ → C) (strides : List ℕ) (lane : ℕ) :
    Thread C (fun _ => α) Unit :=
  forEach strides fun stride => do
    combineRound combine scratch stride lane
    barrier

/-- Publish the value of a thread and combine the published values. -/
def blockReduce (combine : α → α → α) (scratch : ℕ → C) (threads lane : ℕ) (value : α) :
    Thread C (fun _ => α) Unit := do
  @store C (fun _ => α) (scratch lane) value
  barrier
  treeReduce combine scratch (halvings (threads / 2)) lane

section Writes

variable [DecidableEq C] {c : C} {combine : α → α → α} {scratch : ℕ → C}

theorem writes_laneFold {empty : α} {threads count lane : ℕ}
    {element : ℕ → Thread C (fun _ => α) α} (h : ∀ i, (element i).Writes c 0) :
    (laneFold combine empty threads count lane element).Writes c 0 :=
  Writes.fold fun _ i _ => (h i).bind (n := 0) fun _ => rfl

/-- A reduction writes the published values only. -/
theorem writes_blockReduce (hc : ∀ lane, c ≠ scratch lane) (threads lane : ℕ) (value : α) :
    (blockReduce combine scratch threads lane value).Writes c 0 := by
  have hround (stride : ℕ) : (do
      combineRound combine scratch stride lane
      barrier : Thread C (fun _ => α) Unit).Writes c 0 := by
    refine Writes.bind (m := 0) (n := 0) ?_ fun _ => rfl
    rw [combineRound]
    split_ifs
    · exact Touches.writes ⟨(fun h => by cases h), fun _ => ⟨(fun h => by cases h), fun _ =>
        ⟨fun heq => hc lane (Access.write.inj heq).symm, trivial⟩⟩⟩
    · exact rfl
  have htree : (treeReduce combine scratch (halvings (threads / 2)) lane).Writes c 0 := by
    have hsum := Writes.forEach (l := halvings (threads / 2)) fun stride _ => hround stride
    rwa [List.map_const', List.sum_replicate_nat, Nat.mul_zero] at hsum
  refine Writes.bind (m := 0) (n := 0) ?_ fun _ => htree
  exact Touches.writes ⟨fun heq => hc lane (Access.write.inj heq).symm, trivial⟩

end Writes

end Thread

namespace Block

open TreeReduction

variable {C α β : Type} {width : ℕ} {combine : α → α → α} {empty : α} {scratch : ℕ → C}

/-! ### The tree -/

/-- The cells of a thread in a round of the tree. -/
def treeFootprint (scratch : ℕ → C) (stride lane : ℕ) : Footprint C where
  reads := {c | lane < stride ∧ (c = scratch lane ∨ c = scratch (lane + stride))}
  writes := {c | lane < stride ∧ c = scratch lane}

private theorem within_combineRound (stride lane : ℕ) :
    (Thread.combineRound combine scratch stride lane).Within
      (treeFootprint scratch stride lane) :=
  Thread.Within.ite (fun h =>
    ⟨⟨h, .inl rfl⟩, fun _ => ⟨⟨h, .inr rfl⟩, fun _ => ⟨⟨h, rfl⟩, trivial⟩⟩⟩)
    fun _ => trivial

private theorem separate_tree (hscratch : Function.Injective scratch) (stride : ℕ) :
    Separate width (treeFootprint scratch stride) := by
  rintro t - u - hne c ⟨ht, rfl⟩
  refine ⟨?_, fun ⟨_, hc⟩ => hne (hscratch hc)⟩
  rintro ⟨hu, hc | hc⟩
  · exact hne (hscratch hc)
  · have heq := hscratch hc
    omega

variable [DecidableEq C] {b : Block C (fun _ => α) β} {post : Block C (fun _ => α) β → Prop}

/-- The rounds of the tree are those of the published values. -/
theorem Leads.tree (hscratch : Function.Injective scratch) {strides : List ℕ}
    (hstrides : ∀ stride ∈ strides, stride ≤ width) {k : ℕ → Thread C (fun _ => α) β}
    (hthread : ∀ t < width,
      b.thread t = Thread.treeReduce combine scratch strides t >>= fun _ => k t)
    (h : ∀ b' : Block C (fun _ => α) β, (∀ t < width, b'.thread t = k t) →
      (∀ lane, b'.memory (scratch lane) =
        strides.foldl (TreeReduction.round combine) (fun lane => b.memory (scratch lane)) lane) →
      (∀ c, (∀ lane, c ≠ scratch lane) → b'.memory c = b.memory c) → Leads width b' post) :
    Leads width b post := by
  induction strides generalizing b with
  | nil => exact h b hthread (fun _ => rfl) fun _ _ => rfl
  | cons stride strides ih =>
    have hround (t : ℕ) (ht : t < width) :
        b.thread t = Thread.combineRound combine scratch stride t >>= fun _ =>
          Thread.barrier >>= fun _ =>
            Thread.treeReduce combine scratch strides t >>= fun _ => k t := by
      rw [hthread t ht, Thread.treeReduce, Thread.forEach]
      simp only [Thread.bind_assoc]
      rfl
    refine Leads.phase hround (fun t _ => within_combineRound stride t)
      (separate_tree hscratch stride) fun b₁ hthread₁ hwritten hkept => ?_
    have hcells (lane : ℕ) : b₁.memory (scratch lane) =
        TreeReduction.round combine (fun lane => b.memory (scratch lane)) stride lane := by
      rw [TreeReduction.round]
      split_ifs with hlane
      · rw [hwritten lane (hlane.trans_le (hstrides stride List.mem_cons_self)) _ ⟨hlane, rfl⟩,
          Thread.combineRound, if_pos hlane]
        exact Function.update_self ..
      · exact hkept _ fun t _ h => hlane (hscratch h.2 ▸ h.1)
    refine ih (fun s hs => hstrides s (List.mem_cons_of_mem stride hs)) hthread₁
      fun b' hthread' hcells' hkept' => h b' hthread' (fun lane => ?_) fun c hc => ?_
    · rw [hcells', List.foldl_cons, funext hcells]
    · rw [hkept' c hc]
      exact hkept c fun t _ h => hc t h.2

/-! ### Strided loops -/

/-- The cells of a thread that runs the rounds of its residue. -/
def stridedFootprint (f : ℕ → Footprint C) (threads count lane : ℕ) : Footprint C where
  reads := {c | ∃ i < count, i % threads = lane ∧ c ∈ (f i).reads}
  writes := {c | ∃ i < count, i % threads = lane ∧ c ∈ (f i).writes}

section Strided

variable {count : ℕ} {f : ℕ → Footprint C}

omit [DecidableEq C] in
private theorem pairwise_strided {lane : ℕ} (hlane : lane < width)
    (hseparate : Separate count f) : (strided lane count width).Pairwise fun i j =>
      ∀ c ∈ (f i).writes, c ∉ (f j).reads ∧ c ∉ (f j).writes := by
  refine (nodup_strided (Nat.zero_lt_of_lt hlane)).imp_of_mem fun {i j} hi hj hne => ?_
  exact hseparate i ((mem_strided hlane).1 hi).1 j ((mem_strided hlane).1 hj).1 hne

omit [DecidableEq C] in
private theorem separate_strided (hseparate : Separate count f) :
    Separate width (stridedFootprint f width count) := by
  rintro t - u - hne c ⟨i, hi, rfl, hc⟩
  constructor
  · rintro ⟨j, hj, rfl, hc'⟩
    exact (hseparate i hi j hj (fun heq => hne (heq ▸ rfl)) c hc).1 hc'
  · rintro ⟨j, hj, rfl, hc'⟩
    exact (hseparate i hi j hj (fun heq => hne (heq ▸ rfl)) c hc).2 hc'

variable {round : ℕ → Thread C (fun _ => α) Unit}

omit [DecidableEq C] in
private theorem within_forEach (hwithin : ∀ i < count, (round i).Within (f i)) {lane : ℕ}
    (hlane : lane < width) : (Thread.forEach (strided lane count width) round).Within
      (stridedFootprint f width count lane) := by
  refine Thread.Within.forEach fun i hi => ?_
  obtain ⟨hlt, hmod⟩ := (mem_strided hlane).1 hi
  exact (hwithin i hlt).mono (fun c hc => ⟨i, hlt, hmod, hc⟩) fun c hc => ⟨i, hlt, hmod, hc⟩

/-- What the loops of all threads leave, put together. -/
private theorem forEach_cells (hwidth : 0 < width) (hwithin : ∀ i < count, (round i).Within (f i))
    (hseparate : Separate count f) {m m' : C → α}
    (hwritten : ∀ t < width, ∀ c ∈ (stridedFootprint f width count t).writes,
      m' c = ((Thread.forEach (strided t count width) round).eval m).2 c) :
    ∀ i < count, ∀ c ∈ (f i).writes, m' c = ((round i).eval m).2 c := by
  intro i hi c hc
  have hlane := Nat.mod_lt i hwidth
  rw [hwritten _ hlane c ⟨i, hi, rfl, hc⟩]
  exact (Thread.eval_forEach (fun j hj => hwithin j ((mem_strided hlane).1 hj).1)
    (pairwise_strided hlane hseparate) m).1 i ((mem_strided hlane).2 ⟨hi, rfl⟩) c hc

/-- A loop of all threads that ends at a barrier. -/
theorem Leads.forEach (hwidth : 0 < width) (hwithin : ∀ i < count, (round i).Within (f i))
    (hseparate : Separate count f) {k : ℕ → Thread C (fun _ => α) β}
    (hthread : ∀ t < width, b.thread t = Thread.forEach (strided t count width) round >>= fun _ =>
      Thread.barrier >>= fun _ => k t)
    (h : ∀ b' : Block C (fun _ => α) β, (∀ t < width, b'.thread t = k t) →
      (∀ i < count, ∀ c ∈ (f i).writes, b'.memory c = ((round i).eval b.memory).2 c) →
      (∀ c, (∀ i < count, c ∉ (f i).writes) → b'.memory c = b.memory c) → Leads width b' post) :
    Leads width b post :=
  Leads.phase hthread (fun _ ht => within_forEach hwithin ht) (separate_strided hseparate)
    fun b' hthread' hwritten hkept =>
      h b' hthread' (forEach_cells hwidth hwithin hseparate hwritten) fun c hc =>
        hkept c fun _ _ ⟨i, hi, _, hmem⟩ => hc i hi hmem

/-- A loop of all threads at their end. -/
theorem Leads.finish_forEach {b : Block C (fun _ => α) Unit}
    {post : Block C (fun _ => α) Unit → Prop} (hwidth : 0 < width)
    (hwithin : ∀ i < count, (round i).Within (f i)) (hseparate : Separate count f)
    (hthread : ∀ t < width, b.thread t = Thread.forEach (strided t count width) round)
    (h : ∀ b' : Block C (fun _ => α) Unit, Finished width b' →
      (∀ i < count, ∀ c ∈ (f i).writes, b'.memory c = ((round i).eval b.memory).2 c) →
      (∀ c, (∀ i < count, c ∉ (f i).writes) → b'.memory c = b.memory c) → post b') :
    Leads width b post :=
  Leads.finish hthread (fun _ ht => within_forEach hwithin ht) (separate_strided hseparate)
    fun b' hfinished hwritten hkept =>
      h b' hfinished (forEach_cells hwidth hwithin hseparate hwritten) fun c hc =>
        hkept c fun _ _ ⟨i, hi, _, hmem⟩ => hc i hi hmem

end Strided

/-! ### The reduction -/

/-- The cells of a thread that folds its elements and publishes its value. -/
def laneFootprint (scratch : ℕ → C) (f : ℕ → Footprint C) (threads count lane : ℕ) :
    Footprint C where
  reads := {c | ∃ i < count, i % threads = lane ∧ c ∈ (f i).reads}
  writes := {c | c = scratch lane ∨ ∃ i < count, i % threads = lane ∧ c ∈ (f i).writes}

section Reduce

variable {count : ℕ} {f : ℕ → Footprint C} {element : ℕ → Thread C (fun _ => α) α}

/-- The fold of a thread, and what it publishes. -/
private def publish (combine : α → α → α) (empty : α) (scratch : ℕ → C) (width count : ℕ)
    (element : ℕ → Thread C (fun _ => α) α) (lane : ℕ) : Thread C (fun _ => α) Unit := do
  let value ← Thread.laneFold combine empty width count lane element
  @Thread.store C (fun _ => α) (scratch lane) value

omit [DecidableEq C] in
private theorem within_publish (hwithin : ∀ i < count, (element i).Within (f i)) {lane : ℕ}
    (hlane : lane < width) : (publish combine empty scratch width count element lane).Within
      (laneFootprint scratch f width count lane) := by
  refine Thread.Within.bind (Thread.Within.fold fun value i hi => ?_) fun value =>
    ⟨.inl rfl, trivial⟩
  obtain ⟨hlt, hmod⟩ := (mem_strided hlane).1 hi
  refine Thread.Within.bind ((hwithin i hlt).mono (fun c hc => ⟨i, hlt, hmod, hc⟩)
    fun c hc => .inr ⟨i, hlt, hmod, hc⟩) fun _ => trivial

omit [DecidableEq C] in
private theorem separate_lanes (hscratch : Function.Injective scratch)
    (hseparate : Separate count f)
    (hfree : ∀ i < count, ∀ lane, scratch lane ∉ (f i).reads ∧ scratch lane ∉ (f i).writes) :
    Separate width (laneFootprint scratch f width count) := by
  rintro t - u - hne c (rfl | ⟨i, hi, rfl, hc⟩)
  · refine ⟨fun ⟨i, hi, _, hc⟩ => (hfree i hi t).1 hc, ?_⟩
    rintro (hc | ⟨i, hi, -, hc⟩)
    · exact hne (hscratch hc)
    · exact (hfree i hi t).2 hc
  · constructor
    · rintro ⟨j, hj, rfl, hc'⟩
      exact (hseparate i hi j hj (fun heq => hne (heq ▸ rfl)) c hc).1 hc'
    · rintro (rfl | ⟨j, hj, rfl, hc'⟩)
      · exact (hfree i hi u).2 hc
      · exact (hseparate i hi j hj (fun heq => hne (heq ▸ rfl)) c hc).2 hc'

/-- What the fold of a thread publishes and leaves. -/
private theorem eval_publish (hwithin : ∀ i < count, (element i).Within (f i))
    (hseparate : Separate count f)
    (hfree : ∀ i < count, ∀ lane, scratch lane ∉ (f i).reads ∧ scratch lane ∉ (f i).writes)
    {lane : ℕ} (hlane : lane < width) (m : C → α) :
    ((publish combine empty scratch width count element lane).eval m).2 (scratch lane) =
        (strided lane count width).foldl
          (fun value i => combine value ((element i).eval m).1) empty ∧
      ∀ i < count, i % width = lane → ∀ c ∈ (f i).writes,
        ((publish combine empty scratch width count element lane).eval m).2 c =
          ((element i).eval m).2 c := by
  have hmem (i : ℕ) (hi : i ∈ strided lane count width) := (mem_strided hlane).1 hi
  obtain ⟨hresult, hwritten, -⟩ := Thread.eval_fold (fun i hi => hwithin i (hmem i hi).1)
    (pairwise_strided hlane hseparate) combine empty m
  have heval : (publish combine empty scratch width count element lane).eval m =
      ((), Function.update ((Thread.laneFold combine empty width count lane element).eval m).2
        (scratch lane) ((Thread.laneFold combine empty width count lane element).eval m).1) := by
    rw [publish, Thread.eval_bind]
    rfl
  rw [heval]
  refine ⟨(Function.update_self ..).trans hresult, fun i hi hmod c hc => ?_⟩
  have hne : c ≠ scratch lane := fun heq => (hfree i hi lane).2 (heq ▸ hc)
  exact (Function.update_of_ne hne ..).trans (hwritten i ((mem_strided hlane).2 ⟨hi, hmod⟩) c hc)

/-- A reduction of elements that keep to separate cells. -/
theorem Leads.reduce (hwidth : 0 < width) (hscratch : Function.Injective scratch)
    (hwithin : ∀ i < count, (element i).Within (f i)) (hseparate : Separate count f)
    (hfree : ∀ i < count, ∀ lane, scratch lane ∉ (f i).reads ∧ scratch lane ∉ (f i).writes)
    {k : ℕ → Thread C (fun _ => α) β}
    (hthread : ∀ t < width, b.thread t =
      Thread.laneFold combine empty width count t element >>= fun value =>
        Thread.blockReduce combine scratch width t value >>= fun _ => k t)
    (h : ∀ b' : Block C (fun _ => α) β, (∀ t < width, b'.thread t = k t) →
      b'.memory (scratch 0) =
        ofStrided combine empty width count (fun i => ((element i).eval b.memory).1) →
      (∀ i < count, ∀ c ∈ (f i).writes, b'.memory c = ((element i).eval b.memory).2 c) →
      (∀ c, (∀ lane, c ≠ scratch lane) → (∀ i < count, c ∉ (f i).writes) →
        b'.memory c = b.memory c) → Leads width b' post) :
    Leads width b post := by
  have hpublish (t : ℕ) (ht : t < width) : b.thread t =
      publish combine empty scratch width count element t >>= fun _ => Thread.barrier >>= fun _ =>
        Thread.treeReduce combine scratch (halvings (width / 2)) t >>= fun _ => k t := by
    rw [hthread t ht, publish]
    simp only [Thread.blockReduce, Thread.bind_assoc]
  refine Leads.phase hpublish (fun t ht => within_publish hwithin ht)
    (separate_lanes hscratch hseparate hfree) fun b₁ hthread₁ hwritten hkept => ?_
  have hstrides : ∀ stride ∈ halvings (width / 2), stride ≤ width := fun stride hmem =>
    (le_of_mem_halvings hmem).trans (Nat.div_le_self width 2)
  refine Leads.tree hscratch hstrides hthread₁ fun b' hthread' hcells hkept' =>
    h b' hthread' ?_ (fun i hi c hc => ?_) fun c hc hnone => ?_
  · rw [hcells]
    refine rounds_congr hwidth fun lane hlane => ?_
    rw [hwritten lane hlane _ (.inl rfl)]
    exact (eval_publish hwithin hseparate hfree hlane b.memory).1
  · have hlane := Nat.mod_lt i hwidth
    rw [hkept' c fun lane heq => (hfree i hi lane).2 (heq ▸ hc),
      hwritten _ hlane c (.inr ⟨i, hi, rfl, hc⟩)]
    exact (eval_publish hwithin hseparate hfree hlane b.memory).2 i hi rfl c hc
  · rw [hkept' c hc]
    refine hkept c fun t _ hmem => ?_
    rcases hmem with rfl | ⟨i, hi, -, hci⟩
    · exact hc t rfl
    · exact hnone i hi hci

end Reduce

end Block

end NNIS
