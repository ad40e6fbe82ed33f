import NNIS.Kernels.RowWiseLaunch

/-!
# How often the row-wise kernels write an element

In the launch of a fused kernel and of a kernel with a thread for each element, one thread writes an
element of the output, and once; the kernels that reduce rows do not write the output.

## Main results

* `writes_rowReduction`, `writes_rowStats` — launches that leave the output alone.
* `writes_elementwise`, `writes_fused` — launches that write each element once.
* `RowLaunch.PlanWrites.unique` — the number of times is determined.
-/

set_option autoImplicit false

namespace NNIS

open RowThread

variable {α : Type}

section Writes

variable {rows cols width bytes grid : ℕ} {input output : RowBuffer} {o : ℕ}

theorem writes_bind {β γ : Type} {c : RowCell} {p : RowThread α β} {k : β → RowThread α γ}
    {n : ℕ} (hp : p.Writes c 0) (hk : ∀ a, (k a).Writes c n) : (p >>= k).Writes c n := by
  rw [← Nat.zero_add n]
  exact hp.bind hk

private theorem global_ne_shared (buffer : RowBuffer) (i j : ℕ) :
    RowCell.global buffer i ≠ .shared j := nofun

theorem writes_store_of_ne {c c' : RowCell} (h : c' ≠ c) (v : α) :
    (store c' v).Writes c 0 := by
  have hstore := @Thread.writes_store RowCell (fun _ => α) _ c c' v
  rwa [if_neg h] at hstore

/-- A launch that leaves a cell alone. -/
theorem RowLaunch.writes_zero {launch : RowLaunch α} {c : RowCell}
    (h : ∀ i < launch.gridSize, ∀ t < launch.blockSize, (launch.thread i t).Writes c 0) :
    launch.Writes c 0 :=
  ⟨fun _ _ => 0, h,
    (Finset.sum_eq_zero fun _ _ => Finset.sum_eq_zero fun _ _ => rfl).symm⟩

theorem RowLaunch.Writes.unique [Nonempty α] {launch : RowLaunch α} {c : RowCell} {m n : ℕ}
    (hm : launch.Writes c m) (hn : launch.Writes c n) : m = n := by
  obtain ⟨_, hcount, rfl⟩ := hm
  obtain ⟨_, hcount', rfl⟩ := hn
  refine Finset.sum_congr rfl fun i hi => Finset.sum_congr rfl fun t ht => ?_
  exact (hcount i (Finset.mem_range.1 hi) t (Finset.mem_range.1 ht)).unique
    (hcount' i (Finset.mem_range.1 hi) t (Finset.mem_range.1 ht))

theorem RowLaunch.PlanWrites.unique [Nonempty α] {plan : List (RowLaunch α)} {c : RowCell} {m n : ℕ}
    (hm : PlanWrites c plan m) (hn : PlanWrites c plan n) : m = n := by
  induction plan generalizing m n with
  | nil => exact Eq.trans hm (Eq.symm hn)
  | cons launch plan ih =>
    obtain ⟨_, _, hfirst, hrest, rfl⟩ := hm
    obtain ⟨_, _, hfirst', hrest', rfl⟩ := hn
    rw [hfirst.unique hfirst', ih hrest hrest']

/-- A launch one thread of which writes a cell, once. -/
private theorem RowLaunch.writes_one {launch : RowLaunch α} {c : RowCell} {a b : ℕ}
    (ha : a < launch.gridSize) (hb : b < launch.blockSize)
    (h : ∀ i < launch.gridSize, ∀ t < launch.blockSize,
      (launch.thread i t).Writes c (if i = a ∧ t = b then 1 else 0)) :
    launch.Writes c 1 := by
  refine ⟨_, h, ?_⟩
  rw [Finset.sum_eq_single_of_mem a (Finset.mem_range.2 ha),
    Finset.sum_eq_single_of_mem b (Finset.mem_range.2 hb), if_pos ⟨rfl, rfl⟩]
  · exact fun t _ hne => if_neg fun ⟨_, ht⟩ => hne ht
  · exact fun i _ hne => Finset.sum_eq_zero fun t _ => if_neg fun ⟨hi, _⟩ => hne hi

theorem writes_rowReduction {lane row : ℕ} {combine : α → α → α} {empty : α}
    {element : ℕ → RowThread α α} {column : RowBuffer} (hne : column ≠ output)
    (helement : ∀ i, (element i).Writes (.global output o) 0) :
    (rowReduction cols width row lane combine empty element column).Writes
      (.global output o) 0 := by
  refine writes_bind (Thread.writes_laneFold helement) fun value => ?_
  refine writes_bind (Thread.writes_blockReduce (global_ne_shared output o) width lane value)
    fun _ => ?_
  have hcell : RowCell.global column row ≠ .global output o := fun heq =>
    hne (RowCell.global.inj heq).1
  split_ifs
  · exact fun v => writes_store_of_ne hcell v
  · exact rfl

theorem writes_rowStats {math : RowMath α} {lane row : ℕ}
    (hmeans : RowBuffer.rowMeans ≠ output) (hvars : RowBuffer.rowVars ≠ output) :
    (nnisLayernormRowStatsF32 math cols width row lane input .rowMeans .rowVars).Writes
      (.global output o) 0 := by
  refine writes_bind (Thread.writes_laneFold fun i => ?_) fun value => ?_
  · exact fun _ => rfl
  refine writes_bind (Thread.writes_blockReduce (global_ne_shared output o) width lane value)
    fun _ => ?_
  refine writes_bind (fun _ => rfl) fun total => Thread.Writes.barrier_bind ?_
  refine writes_bind (Thread.writes_laneFold fun i => ?_) fun value => ?_
  · exact fun _ => rfl
  refine writes_bind (Thread.writes_blockReduce (global_ne_shared output o) width lane value)
    fun _ => ?_
  have hmean : RowCell.global .rowMeans row ≠ .global output o := fun heq =>
    hmeans (RowCell.global.inj heq).1
  have hvar : RowCell.global .rowVars row ≠ .global output o := fun heq =>
    hvars (RowCell.global.inj heq).1
  split_ifs
  · exact writes_bind (writes_store_of_ne hmean _) fun _ v => writes_store_of_ne hvar v
  · exact rfl

/-- The thread of a flat grid that writes an element. -/
private theorem writes_element {count blockIdx lane : ℕ} {body : ℕ → RowThread α Unit}
    (hlane : lane < width) (ho : o < count)
    (hbody : ∀ i, (body i).Writes (.global output o) (if i = o then 1 else 0)) :
    (elementwise width blockIdx lane count body).Writes (.global output o)
      (if blockIdx = o / width ∧ lane = o % width then 1 else 0) := by
  have hwidth : 0 < width := Nat.zero_lt_of_lt hlane
  have hown : (blockIdx = o / width ∧ lane = o % width) ↔ blockIdx * width + lane = o := by
    constructor
    · rintro ⟨rfl, rfl⟩
      exact Nat.div_add_mod' o width
    · intro heq
      exact rowMajor_injective hlane (Nat.mod_lt o hwidth)
        (heq.trans (Nat.div_add_mod' o width).symm)
  have hthread : (elementwise width blockIdx lane count body).Writes (.global output o)
      (if blockIdx * width + lane < count then (if blockIdx * width + lane = o then 1 else 0)
        else 0) :=
    Thread.Writes.ite (fun _ => hbody _) fun _ => rfl
  rw [if_congr hown rfl rfl]
  by_cases hlt : blockIdx * width + lane < count
  · rwa [if_pos hlt] at hthread
  · have hne : blockIdx * width + lane ≠ o := fun heq => hlt (heq ▸ ho)
    rw [if_neg hlt] at hthread
    rwa [if_neg hne]

/-- A flat grid whose bodies write their own element. -/
theorem writes_elementwise {body : ℕ → RowThread α Unit} (hwidth : 0 < width)
    (hgrid : (rows * cols) ⌈/⌉ width ≤ grid) (ho : o < rows * cols)
    (hbody : ∀ i, (body i).Writes (.global output o) (if i = o then 1 else 0)) :
    (⟨grid, width, bytes, fun blockIdx lane =>
      elementwise width blockIdx lane (rows * cols) body⟩ : RowLaunch α).Writes
        (.global output o) 1 := by
  have hcover : rows * cols ≤ width * grid := (ceilDiv_le_iff_le_mul hwidth).1 hgrid
  exact RowLaunch.writes_one (Nat.div_lt_of_lt_mul (ho.trans_le hcover)) (Nat.mod_lt o hwidth)
    fun blockIdx _ lane hlane => writes_element hlane ho hbody

private theorem sum_indicator {l : List ℕ} (hl : l.Nodup) (a : ℕ) :
    (l.map fun i => if i = a then 1 else 0).sum = if a ∈ l then 1 else 0 := by
  induction l with
  | nil => rfl
  | cons i l ih =>
    obtain ⟨hnotMem, hl⟩ := List.nodup_cons.1 hl
    rw [List.map_cons, List.sum_cons, ih hl]
    rcases eq_or_ne i a with rfl | hne
    · rw [if_pos rfl, if_neg hnotMem, if_pos List.mem_cons_self]
    · rw [if_neg hne, Nat.zero_add]
      exact if_congr (by rw [List.mem_cons, or_iff_right hne.symm]) rfl rfl

/-- The threads of a row write its elements. -/
theorem writes_storeRow {row lane : ℕ} (hlane : lane < width) (hcols : 0 < cols)
    {result : α → α} : (storeRow cols width row lane output result).Writes (.global output o)
      (if row = o / cols ∧ lane = o % cols % width then 1 else 0) := by
  have hwidth : 0 < width := Nat.zero_lt_of_lt hlane
  have hround (i : ℕ) (hi : i ∈ strided lane cols width) : (do
      let value ← load (.shared i)
      store (.global output (row * cols + i)) (result value) : RowThread α Unit).Writes
        (.global output o) (if row = o / cols ∧ i = o % cols then 1 else 0) := by
    have hown : (row = o / cols ∧ i = o % cols) ↔
        RowCell.global output (row * cols + i) = .global output o := by
      constructor
      · rintro ⟨rfl, rfl⟩
        rw [Nat.div_add_mod']
      · intro heq
        exact rowMajor_injective (lt_of_mem_strided hwidth hi) (Nat.mod_lt o hcols)
          ((RowCell.global.inj heq).2.trans (Nat.div_add_mod' o cols).symm)
    simp only [hown]
    exact fun value => Thread.writes_store _ (result value)
  have hsum := Thread.Writes.forEach hround
  rw [storeRow]
  by_cases hrow : row = o / cols
  · simp only [hrow, true_and, sum_indicator (nodup_strided hwidth)] at hsum ⊢
    have hmem : o % cols ∈ strided lane cols width ↔ lane = o % cols % width := by
      rw [mem_strided hlane]
      exact ⟨fun h => h.2.symm, fun h => ⟨Nat.mod_lt o hcols, h.symm⟩⟩
    rwa [if_congr hmem rfl rfl] at hsum
  · simp only [hrow, false_and, if_false] at hsum ⊢
    rwa [List.map_const', List.sum_replicate_nat, Nat.mul_zero] at hsum

/-- A fused kernel whose threads store their row at the end. -/
theorem writes_fused {thread : ℕ → ℕ → RowThread α Unit} (ho : o < rows * cols)
    (hwidth : 0 < width)
    (h : ∀ row, ∀ lane < width, (thread row lane).Writes (.global output o)
      (if row = o / cols ∧ lane = o % cols % width then 1 else 0)) :
    (⟨rows, width, bytes, thread⟩ : RowLaunch α).Writes (.global output o) 1 := by
  obtain ⟨hrow, -, -⟩ := exists_row ho
  exact RowLaunch.writes_one hrow (Nat.mod_lt _ hwidth) fun row _ => h row

/-- A part that writes shared memory only. -/
theorem writes_of_shared {β : Type} {p : RowThread α β}
    (h : p.Within ⟨Set.univ, RowCell.sharedMemory⟩) : p.Writes (.global output o) 0 :=
  h.writes (global_notMem _ _)

theorem writes_stageRow {row lane n : ℕ} {k : RowThread α Unit}
    (hk : k.Writes (.global output o) n) :
    (stageRow cols width row lane input >>= fun _ => Thread.barrier >>= fun _ => k).Writes
      (.global output o) n := by
  refine writes_bind (writes_of_shared ?_) fun _ => hk
  exact Thread.Within.forEach fun i _ => ⟨trivial, fun _ => ⟨⟨i, rfl⟩, trivial⟩⟩

theorem writes_fusedReduction {lane n : ℕ} {combine : α → α → α} {empty : α}
    {element : ℕ → RowThread α α} {k : α → RowThread α Unit}
    (helement : ∀ i, (element i).Writes (.global output o) 0)
    (hk : ∀ total, (k total).Writes (.global output o) n) :
    (fusedReduction cols width lane combine empty element >>= k).Writes (.global output o) n := by
  refine writes_bind (writes_bind (Thread.writes_laneFold helement) fun value => ?_) hk
  exact writes_bind (Thread.writes_blockReduce (fun lane => global_ne_shared output o (cols + lane))
    width lane value) fun _ _ => rfl

end Writes

end NNIS
