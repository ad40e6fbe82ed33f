import NNIS.Kernels.GemmBlock

/-!
# What the tiled products compute

Every element of a product is the fold of its row and its column, in ascending order of the inner
dimension and from zero: the padded positions of the last tiles add nothing. It is written once, by
one thread of one block, and no thread reads outside of the operands. The product with a transposed
operand and the batched products are the same function of the transpose and of the slices.

## Main definitions

* `gemmProduct`, `storedTranspose`, `batchSlice` — a product, and views of stored operands.
* `GemmPlan.Exact` — submitted work that computes a function of the operands.

## Main results

* `TiledProduct.blockLaw` — a block of a product.
* `F32Gemm.products_exact` — the four entry points.
-/

set_option autoImplicit false

namespace NNIS

variable {α : Type}

/-- An element of the product of two stored matrices. -/
def gemmProduct (math : GemmMath α) (n k : ℕ) (matrixA matrixB : List α) (o : ℕ) : α :=
  (List.range k).foldl (fun value e => math.fmaf (matrixA.getD (o / n * k + e) math.zero)
    (matrixB.getD (e * n + o % n) math.zero) value) math.zero

/-- The transpose of a stored matrix of `n` rows and `k` columns. -/
def storedTranspose (math : GemmMath α) (n k : ℕ) (matrix : List α) : List α :=
  (List.range (k * n)).map fun i => matrix.getD (i % n * k + i / n) math.zero

/-- The elements of one of several packed matrices. -/
def batchSlice (size batch : ℕ) (matrices : List α) : List α :=
  (matrices.drop (batch * size)).take size

/-- A memory holds two operands. -/
def HoldsOperands (math : GemmMath α) (matrixA matrixB : List α) (memory : GemmCell → α) : Prop :=
  (∀ i < matrixA.length, memory (.matrixA i) = matrixA.getD i math.zero) ∧
    ∀ i < matrixB.length, memory (.matrixB i) = matrixB.getD i math.zero

/-- Submitted work computes a function of the operands: it can be performed, however it is performed
the operands stay and the output holds the results, all accesses are inside, and each element of the
output is written by one thread, once. -/
structure GemmPlan.Exact (math : GemmMath α) (gemm : F32Gemm) (kernel : ℕ → TiledProduct)
    (matrixA matrixB : List α) (lengthOutput : ℕ) (result : ℕ → α) (plan : GemmPlan) : Prop where
  runs : ∀ memory, HoldsOperands math matrixA matrixB memory →
    ∃ memory', plan.Performs math gemm kernel lengthOutput memory memory'
  computes : ∀ memory memory', HoldsOperands math matrixA matrixB memory →
    plan.Performs math gemm kernel lengthOutput memory memory' →
      HoldsOperands math matrixA matrixB memory' ∧
        (∀ o < lengthOutput, memory' (.output o) = result o) ∧
        ∀ o, lengthOutput ≤ o → memory' (.output o) = memory (.output o)
  inRange : ∀ grid bytes, plan = .launch grid bytes → ∀ i ∈ grid.indices,
    ∀ tid < gemm.tileSide * gemm.tileSide,
      ((kernel i.z).thread math gemm.tileSide i tid).Touches (TiledProduct.InRange matrixA.length
        matrixB.length lengthOutput (gemm.tileSide * gemm.tileSide))
  once : ∀ grid bytes, plan = .launch grid bytes → ∀ o < lengthOutput,
    ∃ i ∈ grid.indices, ∃ tid < gemm.tileSide * gemm.tileSide,
      ((kernel i.z).thread math gemm.tileSide i tid).Writes (.output o) 1 ∧
        ∀ i' ∈ grid.indices, ∀ tid' < gemm.tileSide * gemm.tileSide, (i', tid') ≠ (i, tid) →
          ((kernel i'.z).thread math gemm.tileSide i' tid').Writes (.output o) 0

namespace TiledProduct

open Block

/-! ### A block -/

/-- An element of the product of a block. -/
def element (math : GemmMath α) (p : TiledProduct) (memory : GemmCell → α) (i j : ℕ) : α :=
  (List.range p.k).foldl (fun value e => math.fmaf (memory (.matrixA (p.baseA + (i * p.k + e))))
    (memory (.matrixB (p.baseB + p.indexB e j))) value) math.zero

/-- The fold over the tiles is that over the inner dimension. -/
theorem foldl_foldTile (math : GemmMath α) (p : TiledProduct) {tileSide : ℕ} (hpos : 0 < tileSide)
    (memory : GemmCell → α) {i j : ℕ} (hi : i < p.m) (hj : j < p.n) :
    (strided 0 p.k tileSide).foldl (foldTile math p tileSide memory i j) math.zero =
      p.element math memory i j := by
  have hcover : p.k ≤ (p.k + tileSide - 1) / tileSide * tileSide := by
    have hdiv := Nat.div_add_mod' (p.k + tileSide - 1) tileSide
    have hmod := Nat.mod_lt (p.k + tileSide - 1) hpos
    omega
  have hpad (value : α) (e : ℕ) (he : p.k ≤ e) :
      math.fmaf (paddedA math p memory i e) (paddedB math p memory e j) value = value := by
    rw [paddedA, if_neg (by omega), paddedB, if_neg (by omega), math.fmaf_zero]
  have hstrided := foldl_strided (fun value e => math.fmaf (paddedA math p memory i e)
    (paddedB math p memory e j) value) p.k tileSide math.zero
  refine hstrided.trans ((foldl_range_of_le hcover hpad math.zero).trans ?_)
  refine List.foldl_ext _ _ _ fun value e he => ?_
  have he := List.mem_range.1 he
  rw [paddedA, if_pos ⟨hi, he⟩, paddedB, if_pos ⟨he, hj⟩]

/-- The cells of the operands. -/
def operands : Set GemmCell := {c | ∃ i, c = .matrixA i ∨ c = .matrixB i}

theorem element_congr (math : GemmMath α) (p : TiledProduct) {memory memory' : GemmCell → α}
    (h : ∀ c ∈ operands, memory c = memory' c) (i j : ℕ) :
    p.element math memory i j = p.element math memory' i j := by
  refine List.foldl_ext _ _ _ fun value e _ => ?_
  rw [h _ ⟨_, .inl rfl⟩, h _ ⟨_, .inr rfl⟩]

/-- A block leaves the elements of its threads. -/
theorem blockLaw (math : GemmMath α) (p : TiledProduct) {tileSide : ℕ} (hpos : 0 < tileSide)
    (blockIdx : Dim3) {memory value : GemmCell → α}
    (hvalue : ∀ i < p.m, ∀ j < p.n,
      value (.output (p.baseOutput + (i * p.n + j))) = p.element math memory i j) :
    @BlockLaw GemmCell (GemmCell.Value α) Unit _ GemmCell.tiles operands (tileSide * tileSide)
      (p.thread math tileSide blockIdx) (p.elements tileSide blockIdx) memory value := by
  have hrun (start : GemmCell → α) (schedule : ℕ → List ℕ)
      (hschedule : IsSchedule (tileSide * tileSide) schedule) :=
    @run_rest _ math p tileSide blockIdx (strided 0 p.k tileSide)
      ⟨p.thread math tileSide blockIdx, start⟩ schedule hschedule (fun _ => math.zero)
      fun _ _ => rfl
  refine ⟨fun start _ schedule hschedule => ?_, fun start hstart schedule hschedule m hends => ?_,
    fun start _ schedule hschedule m hends => ?_, ?_⟩
  · obtain ⟨n, hfinished, -, -⟩ := hrun start schedule hschedule
    exact ⟨_, n, hfinished, rfl⟩
  · obtain ⟨n, hfinished, hresult, -⟩ := hrun start schedule hschedule
    rw [ends_iff hschedule hfinished] at hends
    rintro c ⟨t, ht, hin, rfl⟩
    rw [← hends, hresult t ht hin, hvalue _ hin.1 _ hin.2,
      foldl_foldTile math p hpos start hin.1 hin.2, element_congr math p hstart]
  · obtain ⟨n, hfinished, -, hkept⟩ := hrun start schedule hschedule
    rw [ends_iff hschedule hfinished] at hends
    rw [← hends]
    exact hkept
  · rintro c ⟨t, -, -, rfl⟩
    constructor
    · rintro ⟨i, hi | hi⟩ <;> cases hi
    · rintro ⟨i, hi | hi⟩ <;> cases hi

end TiledProduct

/-! ### A launch -/

/-- The kernels of the layers of a grid: they compute products of one shape, packed one after
another, over operands and an output that hold their elements. -/
structure Layers (kernel : ℕ → TiledProduct) (layers m n k lengthA lengthB : ℕ) : Prop where
  m_eq : ∀ z < layers, (kernel z).m = m
  n_eq : ∀ z < layers, (kernel z).n = n
  baseOutput_eq : ∀ z < layers, (kernel z).baseOutput = z * (m * n)
  fits : ∀ z < layers, (kernel z).Fits lengthA lengthB (layers * (m * n))

namespace GemmPlan

open TiledProduct

variable {kernel : ℕ → TiledProduct} {layers m n k lengthA lengthB : ℕ}

/-- The value of a cell of the packed output. -/
def packedValue (math : GemmMath α) (kernel : ℕ → TiledProduct) (m n : ℕ) (memory : GemmCell → α) :
    GemmCell → α
  | .output o => (kernel (o / (m * n))).element math memory (o % (m * n) / n) (o % (m * n) % n)
  | c => memory c

/-- The layer, the row and the column of an element of the packed output. -/
theorem unpack {i j z : ℕ} (hi : i < m) (hj : j < n) :
    (z * (m * n) + (i * n + j)) / (m * n) = z ∧
      (z * (m * n) + (i * n + j)) % (m * n) / n = i ∧
        (z * (m * n) + (i * n + j)) % (m * n) % n = j := by
  have hn : 0 < n := Nat.zero_lt_of_lt hj
  have hlt : i * n + j < m * n :=
    calc i * n + j < i * n + n := Nat.add_lt_add_left hj _
      _ = (i + 1) * n := (Nat.succ_mul _ _).symm
      _ ≤ m * n := Nat.mul_le_mul_right _ hi
  have hpos : 0 < m * n := Nat.zero_lt_of_lt hlt
  rw [Nat.mul_comm z, Nat.mul_add_div hpos, Nat.mul_add_mod, Nat.div_eq_of_lt hlt,
    Nat.mod_eq_of_lt hlt, Nat.mul_comm i, Nat.mul_add_div hn, Nat.mul_add_mod, Nat.div_eq_of_lt hj,
    Nat.mod_eq_of_lt hj]
  exact ⟨rfl, rfl, rfl⟩

/-- Every element of the packed output has a layer, a row and a column. -/
theorem exists_unpack {o : ℕ} (ho : o < layers * (m * n)) :
    ∃ z < layers, ∃ i < m, ∃ j < n, o = z * (m * n) + (i * n + j) := by
  have hpos : 0 < m * n := Nat.pos_of_mul_pos_left (Nat.zero_lt_of_lt ho)
  have hn : 0 < n := Nat.pos_of_mul_pos_left hpos
  refine ⟨o / (m * n), Nat.div_lt_of_lt_mul (by rwa [Nat.mul_comm]), o % (m * n) / n, ?_,
    o % (m * n) % n, Nat.mod_lt _ hn, ?_⟩
  · exact Nat.div_lt_of_lt_mul (by rw [Nat.mul_comm n]; exact Nat.mod_lt _ hpos)
  · rw [Nat.div_add_mod', Nat.div_add_mod']

/-- The block and the thread of a row and a column. -/
theorem exists_thread {tileSide i j : ℕ} (hpos : 0 < tileSide) (hi : i < m) (hj : j < n) (z : ℕ) :
    ∃ tid < tileSide * tileSide, i / tileSide < m ⌈/⌉ tileSide ∧ j / tileSide < n ⌈/⌉ tileSide ∧
      row tileSide ⟨i / tileSide, j / tileSide, z⟩ tid = i ∧
        col tileSide ⟨i / tileSide, j / tileSide, z⟩ tid = j := by
  have hblocks {x count : ℕ} (hx : x < count) : x / tileSide < count ⌈/⌉ tileSide := by
    refine Nat.lt_of_not_le fun hle => ?_
    have hcover := (ceilDiv_le_iff_le_mul hpos).1 hle
    have hdiv := Nat.mul_div_le x tileSide
    omega
  have hmod := Nat.mod_lt j hpos
  refine ⟨i % tileSide * tileSide + j % tileSide, tile_index_lt (Nat.mod_lt i hpos) hmod,
    hblocks hi, hblocks hj, ?_, ?_⟩
  · rw [row, Nat.mul_comm (i % tileSide), Nat.mul_add_div hpos, Nat.div_eq_of_lt hmod, Nat.add_zero]
    exact Nat.div_add_mod' i tileSide
  · rw [col, Nat.mul_comm (i % tileSide), Nat.mul_add_mod, Nat.mod_eq_of_lt hmod]
    exact Nat.div_add_mod' j tileSide

/-- The threads of a grid that compute an element are one thread. -/
theorem thread_unique {tileSide : ℕ} {i i' : Dim3} {tid tid' : ℕ}
    (htid : tid < tileSide * tileSide) (htid' : tid' < tileSide * tileSide)
    (hrow : row tileSide i tid = row tileSide i' tid')
    (hcol : col tileSide i tid = col tileSide i' tid') (hz : i.z = i'.z) :
    (i, tid) = (i', tid') := by
  obtain ⟨hy, hx⟩ := thread_lt htid
  obtain ⟨hy', hx'⟩ := thread_lt htid'
  obtain ⟨hblockX, hthreadY⟩ := rowMajor_injective hy hy' hrow
  obtain ⟨hblockY, hthreadX⟩ := rowMajor_injective hx hx' hcol
  have htids : tid = tid' := by
    rw [← Nat.div_add_mod' tid tileSide, ← Nat.div_add_mod' tid' tileSide, hthreadY, hthreadX]
  cases i
  cases i'
  simp only at hblockX hblockY hz
  rw [hblockX, hblockY, hz, htids]

section Launch

variable {math : GemmMath α} {gemm : F32Gemm} {memory memory' : GemmCell → α}

theorem tileSide_pos (gemm : F32Gemm) : 0 < gemm.tileSide := by
  obtain ⟨e, he⟩ := gemm.isPowerOfTwo
  exact he ▸ Nat.two_pow_pos e

private theorem operands_not_tiles : ∀ c ∈ operands, c ∉ GemmCell.tiles := by
  rintro c ⟨i, rfl | rfl⟩ ⟨j, hj | hj⟩ <;> cases hj

/-- The law of the blocks of a launch. -/
private theorem layersLaw (h : Layers kernel layers m n k lengthA lengthB) (i : Dim3)
    (hi : i.z < layers) :
    @BlockLaw GemmCell (GemmCell.Value α) Unit _ GemmCell.tiles operands
      (gemm.tileSide * gemm.tileSide) ((kernel i.z).thread math gemm.tileSide i)
      ((kernel i.z).elements gemm.tileSide i) memory (packedValue math kernel m n memory) := by
  refine blockLaw math (kernel i.z) (tileSide_pos gemm) i fun r hr c hc => ?_
  rw [h.m_eq i.z hi] at hr
  rw [h.n_eq i.z hi] at hc ⊢
  obtain ⟨hz, hrow, hcol⟩ := @unpack m n r c i.z hr hc
  rw [h.baseOutput_eq i.z hi, packedValue, hz, hrow, hcol]

/-- A launch over all layers leaves the packed products and keeps the operands. -/
theorem launch_spec (h : Layers kernel layers m n k lengthA lengthB) {bytes : ℕ}
    (hperforms : (GemmPlan.launch ⟨m ⌈/⌉ gemm.tileSide, n ⌈/⌉ gemm.tileSide, layers⟩ bytes).Performs
      math gemm kernel (layers * (m * n)) memory memory') :
    (∀ c ∈ operands, memory' c = memory c) ∧
      (∀ o < layers * (m * n), memory' (.output o) =
        packedValue math kernel m n memory (.output o)) ∧
      ∀ o, layers * (m * n) ≤ o → memory' (.output o) = memory (.output o) := by
  obtain ⟨order, hperm, hlaunch⟩ := hperforms
  have hmem (i : Dim3) (hi : i ∈ order) : i.z < layers :=
    (Dim3.mem_indices.1 (hperm.mem_iff.1 hi)).2.2
  obtain ⟨hwritten, hkept⟩ := hlaunch.spec operands_not_tiles
    (fun i hi => layersLaw h i (hmem i hi)) fun _ _ => rfl
  refine ⟨fun c hc => hkept c (operands_not_tiles c hc) ?_, fun o ho => ?_, fun o ho => ?_⟩
  · rintro i - ⟨t, -, -, rfl⟩
    obtain ⟨j, hj | hj⟩ := hc <;> cases hj
  · obtain ⟨z, hz, i, hi, j, hj, rfl⟩ := exists_unpack ho
    obtain ⟨tid, htid, hx, hy, hrow, hcol⟩ := exists_thread (tileSide_pos gemm) hi hj z
    refine hwritten ⟨i / gemm.tileSide, j / gemm.tileSide, z⟩
      (hperm.mem_iff.2 (Dim3.mem_indices.2 ⟨hx, hy, hz⟩)) _ ⟨tid, htid, ?_, ?_⟩
    · rw [hrow, hcol, h.m_eq z hz, h.n_eq z hz]
      exact ⟨hi, hj⟩
    · rw [hrow, hcol, h.n_eq z hz, h.baseOutput_eq z hz]
  · refine hkept _ ?_ ?_
    · rintro ⟨j, hj | hj⟩ <;> cases hj
    · rintro i hi ⟨t, -, hin, heq⟩
      have hlt := (h.fits i.z (hmem i hi)).output _ hin.1 _ hin.2
      rw [← GemmCell.output.inj heq] at hlt
      omega

theorem exists_launch (h : Layers kernel layers m n k lengthA lengthB) (grid : Dim3)
    (hgrid : grid.z = layers) (bytes lengthOutput : ℕ) :
    ∃ memory', (GemmPlan.launch grid bytes).Performs math gemm kernel lengthOutput
      memory memory' := by
  have hlaw (i : Dim3) (hi : i ∈ grid.indices) :
      @BlockLaw GemmCell (GemmCell.Value α) Unit _ GemmCell.tiles operands
        (gemm.tileSide * gemm.tileSide) ((kernel i.z).thread math gemm.tileSide i)
        ((kernel i.z).elements gemm.tileSide i) memory (packedValue math kernel m n memory) :=
    layersLaw h i (hgrid ▸ (Dim3.mem_indices.1 hi).2.2)
  obtain ⟨memory', hlaunch⟩ := exists_launches operands_not_tiles hlaw fun _ _ => rfl
  exact ⟨memory', grid.indices, List.Perm.refl _, hlaunch⟩

/-- Each element of the packed output is written by one thread, once. -/
private theorem launch_once (h : Layers kernel layers m n k lengthA lengthB) {o : ℕ}
    (ho : o < layers * (m * n)) :
    ∃ i ∈ (⟨m ⌈/⌉ gemm.tileSide, n ⌈/⌉ gemm.tileSide, layers⟩ : Dim3).indices,
      ∃ tid < gemm.tileSide * gemm.tileSide,
        ((kernel i.z).thread math gemm.tileSide i tid).Writes (.output o) 1 ∧
          ∀ i' ∈ (⟨m ⌈/⌉ gemm.tileSide, n ⌈/⌉ gemm.tileSide, layers⟩ : Dim3).indices,
            ∀ tid' < gemm.tileSide * gemm.tileSide, (i', tid') ≠ (i, tid) →
              ((kernel i'.z).thread math gemm.tileSide i' tid').Writes (.output o) 0 := by
  obtain ⟨z, hz, i, hi, j, hj, rfl⟩ := exists_unpack ho
  obtain ⟨tid, htid, hx, hy, hrow, hcol⟩ := exists_thread (tileSide_pos gemm) hi hj z
  refine ⟨⟨i / gemm.tileSide, j / gemm.tileSide, z⟩, Dim3.mem_indices.2 ⟨hx, hy, hz⟩, tid, htid,
    ?_, fun i' hi' tid' htid' hne => ?_⟩
  · have hwrites := @writes_thread _ math (kernel z) gemm.tileSide
      ⟨i / gemm.tileSide, j / gemm.tileSide, z⟩ tid (z * (m * n) + (i * n + j))
    rwa [hrow, hcol, h.m_eq z hz, h.n_eq z hz, h.baseOutput_eq z hz, if_pos ⟨⟨hi, hj⟩, rfl⟩]
      at hwrites
  · have hz' : i'.z < layers := (Dim3.mem_indices.1 hi').2.2
    have hwrites := @writes_thread _ math (kernel i'.z) gemm.tileSide i' tid'
      (z * (m * n) + (i * n + j))
    rw [h.m_eq _ hz', h.n_eq _ hz', h.baseOutput_eq _ hz'] at hwrites
    rwa [if_neg] at hwrites
    rintro ⟨⟨hrow', hcol'⟩, heq⟩
    obtain ⟨hz₁, hi₁, hj₁⟩ := @unpack m n _ _ i'.z hrow' hcol'
    obtain ⟨hz₂, hi₂, hj₂⟩ := @unpack m n i j z hi hj
    rw [heq] at hz₁ hi₁ hj₁
    exact hne (thread_unique htid' htid ((hi₁.symm.trans hi₂).trans hrow.symm)
      ((hj₁.symm.trans hj₂).trans hcol.symm) (hz₁.symm.trans hz₂))

/-- What is submitted for operands that have been checked computes the packed products. -/
theorem enqueueChecked_exact {matrixA matrixB : List α} {result : ℕ → α} (name rows : String)
    (h : Layers kernel layers m n k matrixA.length matrixB.length)
    (hm : m ⌈/⌉ gemm.tileSide < u32Limit) (hn : n ⌈/⌉ gemm.tileSide ≤ maxGridYBlocks)
    (hresult : ∀ memory, HoldsOperands math matrixA matrixB memory →
      ∀ z < layers, ∀ i < m, ∀ j < n,
        (kernel z).element math memory i j = result (z * (m * n) + (i * n + j)))
    (hk : ∀ z < layers, (kernel z).k = k) :
    ∃ plan : GemmPlan, plan.Enqueued (gemm.enqueueChecked name rows layers m n k) ∧
      plan.Exact math gemm kernel matrixA matrixB (layers * (m * n)) result := by
  rw [F32Gemm.enqueueChecked]
  by_cases hempty : m = 0 ∨ n = 0
  · rw [if_pos hempty]
    have hzero : layers * (m * n) = 0 := by
      rcases hempty with rfl | rfl <;> simp
    refine ⟨.nothing, fun queue _ => congrArg (Prod.mk _) queue.extend_nil.symm,
      fun memory _ => ⟨memory, rfl⟩, ?_, nofun, nofun⟩
    rintro memory _ hmemory rfl
    exact ⟨hmemory, fun o ho => absurd ho (by omega), fun _ _ => rfl⟩
  rw [if_neg hempty]
  by_cases hinner : k = 0
  · rw [if_pos hinner]
    refine ⟨.zero, fun queue hqueue => LaunchQueue.run_submit (hqueue _ _ List.mem_cons_self),
      fun memory _ => ⟨_, rfl⟩, ?_, nofun, nofun⟩
    rintro memory _ hmemory rfl
    refine ⟨hmemory, fun o ho => ?_, fun o ho => if_neg (Nat.not_lt.2 ho)⟩
    obtain ⟨z, hz, i, hi, j, hj, rfl⟩ := exists_unpack ho
    rw [← hresult memory hmemory z hz i hi j hj, element, hk z hz, hinner]
    exact if_pos ho
  rw [if_neg hinner]
  have hshared : gemm.sharedMemoryBytes = .ok (gemm.tileSide * gemm.tileSide * 2 * 4) :=
    if_pos gemm.sharedMemory_lt
  rw [hshared, Fallible.ofExcept_ok_bind, if_neg (Nat.not_le.2 hm), if_neg (Nat.not_lt.2 hn)]
  refine ⟨.launch ⟨m ⌈/⌉ gemm.tileSide, n ⌈/⌉ gemm.tileSide, layers⟩
    (gemm.tileSide * gemm.tileSide * 2 * 4), ?_, ?_, ?_, ?_, ?_⟩
  · exact fun queue hqueue => LaunchQueue.run_submit (hqueue _ _ List.mem_cons_self)
  · exact fun memory _ => exists_launch h _ rfl _ _
  · intro memory memory' hmemory hperforms
    obtain ⟨hoperands, hwritten, hkept⟩ := launch_spec h hperforms
    refine ⟨⟨fun i hi => ?_, fun i hi => ?_⟩, fun o ho => ?_, hkept⟩
    · rw [hoperands _ ⟨i, .inl rfl⟩, hmemory.1 i hi]
    · rw [hoperands _ ⟨i, .inr rfl⟩, hmemory.2 i hi]
    · rw [hwritten o ho]
      obtain ⟨z, hz, i, hi, j, hj, rfl⟩ := exists_unpack ho
      obtain ⟨hlayer, hrow, hcol⟩ := @unpack m n i j z hi hj
      rw [packedValue, hlayer, hrow, hcol, hresult memory hmemory z hz i hi j hj]
  · rintro grid bytes heq i hi tid htid
    cases heq
    exact touches_thread math i (h.fits i.z (Dim3.mem_indices.1 hi).2.2) htid
  · rintro grid bytes heq o ho
    cases heq
    exact launch_once h ho

end Launch

end GemmPlan

/-! ### The entry points -/

namespace F32Gemm

open TiledProduct

variable (gemm : F32Gemm) (math : GemmMath α) {batches m n k : ℕ} {matrixA matrixB : List α}

/-- An element of a block whose operands are stored as two matrices. -/
private theorem element_eq {p : TiledProduct} {memory : GemmCell → α} {storedA storedB : List α}
    {i j : ℕ} (hj : j < n) (hp : p.k = k)
    (hA : ∀ e < k, memory (.matrixA (p.baseA + (i * k + e))) = storedA.getD (i * k + e) math.zero)
    (hB : ∀ e < k, memory (.matrixB (p.baseB + p.indexB e j)) =
      storedB.getD (e * n + j) math.zero) :
    p.element math memory i j = gemmProduct math n k storedA storedB (i * n + j) := by
  have hn : 0 < n := Nat.zero_lt_of_lt hj
  have hrow : (i * n + j) / n = i := by
    rw [Nat.mul_comm, Nat.mul_add_div hn, Nat.div_eq_of_lt hj, Nat.add_zero]
  have hcol : (i * n + j) % n = j := by
    rw [Nat.mul_comm, Nat.mul_add_mod, Nat.mod_eq_of_lt hj]
  rw [element, gemmProduct, hp, hrow, hcol]
  refine List.foldl_ext _ _ _ fun value e he => ?_
  have he := List.mem_range.1 he
  rw [hA e he, hB e he]

theorem getD_batchSlice {l : List α} {size batch i : ℕ} (hi : i < size) (default : α) :
    (batchSlice size batch l).getD i default = l.getD (batch * size + i) default := by
  simp only [batchSlice, List.getD_eq_getElem?_getD, List.getElem?_take,
    List.getElem?_drop, if_pos hi]

theorem getD_storedTranspose {matrix : List α} {e j : ℕ} (he : e < k) (hj : j < n) :
    (storedTranspose math n k matrix).getD (e * n + j) math.zero =
      matrix.getD (j * k + e) math.zero := by
  have hn : 0 < n := Nat.zero_lt_of_lt hj
  have hlt : e * n + j < k * n :=
    calc e * n + j < e * n + n := Nat.add_lt_add_left hj _
      _ = (e + 1) * n := (Nat.succ_mul _ _).symm
      _ ≤ k * n := Nat.mul_le_mul_right _ he
  have hlength : e * n + j < (storedTranspose math n k matrix).length := by
    simpa [storedTranspose] using hlt
  rw [List.getD_eq_getElem _ _ hlength]
  simp only [storedTranspose, List.getElem_map, List.getElem_range]
  rw [Nat.mul_comm e, Nat.mul_add_mod, Nat.mod_eq_of_lt hj, Nat.mul_add_div hn,
    Nat.div_eq_of_lt hj, Nat.add_zero]

theorem cell_lt {rows cols i j : ℕ} (hi : i < rows) (hj : j < cols) : i * cols + j < rows * cols :=
  calc i * cols + j < i * cols + cols := Nat.add_lt_add_left hj _
    _ = (i + 1) * cols := (Nat.succ_mul _ _).symm
    _ ≤ rows * cols := Nat.mul_le_mul_right _ hi

theorem batch_cell_lt {rows cols i j z : ℕ} (hz : z < batches) (hi : i < rows) (hj : j < cols) :
    z * rows * cols + (i * cols + j) < batches * rows * cols := by
  rw [Nat.mul_assoc, Nat.mul_assoc]
  exact cell_lt hz (cell_lt hi hj)

private theorem layers_gemm (hA : matrixA.length = m * k) (hB : matrixB.length = k * n) :
    Layers (fun _ => nnisGemmF32 m n k) 1 m n k matrixA.length matrixB.length := by
  refine ⟨fun _ _ => rfl, fun _ _ => rfl, fun z hz => ?_, fun z hz => ⟨?_, ?_, ?_⟩⟩
  · rw [Nat.lt_one_iff.1 hz, Nat.zero_mul]
    rfl
  · exact fun i hi e he => (Nat.zero_add _).trans_lt (hA ▸ cell_lt hi he)
  · exact fun e he j hj => (Nat.zero_add _).trans_lt (hB ▸ cell_lt he hj)
  · exact fun i hi j hj => (Nat.zero_add _).trans_lt ((cell_lt hi hj).trans_eq (Nat.one_mul _).symm)

private theorem layers_gemmNt (hA : matrixA.length = m * k) (hB : matrixB.length = n * k) :
    Layers (fun _ => nnisGemmNtF32 m n k) 1 m n k matrixA.length matrixB.length := by
  refine ⟨fun _ _ => rfl, fun _ _ => rfl, fun z hz => ?_, fun z hz => ⟨?_, ?_, ?_⟩⟩
  · rw [Nat.lt_one_iff.1 hz, Nat.zero_mul]
    rfl
  · exact fun i hi e he => (Nat.zero_add _).trans_lt (hA ▸ cell_lt hi he)
  · exact fun e he j hj => (Nat.zero_add _).trans_lt (hB ▸ cell_lt hj he)
  · exact fun i hi j hj => (Nat.zero_add _).trans_lt ((cell_lt hi hj).trans_eq (Nat.one_mul _).symm)

private theorem layers_gemmBatched (hA : matrixA.length = batches * m * k)
    (hB : matrixB.length = batches * k * n) :
    Layers (nnisGemmBatchedF32 m n k) batches m n k matrixA.length matrixB.length := by
  refine ⟨fun _ _ => rfl, fun _ _ => rfl, fun z _ => Nat.mul_assoc z m n, fun z hz => ⟨?_, ?_, ?_⟩⟩
  · exact fun i hi e he => hA ▸ batch_cell_lt hz hi he
  · exact fun e he j hj => hB ▸ batch_cell_lt hz he hj
  · exact fun i hi j hj => Nat.mul_assoc batches m n ▸ batch_cell_lt hz hi hj

private theorem layers_gemmNtBatched (hA : matrixA.length = batches * m * k)
    (hB : matrixB.length = batches * n * k) :
    Layers (nnisGemmNtBatchedF32 m n k) batches m n k matrixA.length matrixB.length := by
  refine ⟨fun _ _ => rfl, fun _ _ => rfl, fun z _ => Nat.mul_assoc z m n, fun z hz => ⟨?_, ?_, ?_⟩⟩
  · exact fun i hi e he => hA ▸ batch_cell_lt hz hi he
  · exact fun e he j hj => hB ▸ batch_cell_lt hz hj he
  · exact fun i hi j hj => Nat.mul_assoc batches m n ▸ batch_cell_lt hz hi hj

/-- What a batch reads of a packed operand. -/
private theorem packed_eq {cell : ℕ → GemmCell} {memory : GemmCell → α} {l : List α}
    {rows cols z i j : ℕ} (hl : l.length = batches * rows * cols)
    (h : ∀ i < l.length, memory (cell i) = l.getD i math.zero) (hz : z < batches) (hi : i < rows)
    (hj : j < cols) : memory (cell (z * rows * cols + (i * cols + j))) =
      (batchSlice (rows * cols) z l).getD (i * cols + j) math.zero := by
  rw [h _ (hl ▸ batch_cell_lt hz hi hj), getD_batchSlice (cell_lt hi hj), Nat.mul_assoc]

/-! ### The checks -/

private theorem validateExecution_eq_ok {lengthA lengthB lengthOutput : ℕ} (hA : lengthA = m * k)
    (hB : lengthB = k * n) (houtput : lengthOutput = m * n) (hltA : lengthA < wordLimit)
    (hltB : lengthB < wordLimit) (hltOutput : lengthOutput < wordLimit) :
    validateExecution lengthA lengthB lengthOutput m n k = .ok ⟨⟩ := by
  rw [validateExecution, checkedMul_of_lt (hA ▸ hltA), checkedMul_of_lt (hB ▸ hltB),
    checkedMul_of_lt (houtput ▸ hltOutput)]
  change (if lengthA ≠ m * k then _ else if lengthB ≠ k * n then _
    else if lengthOutput ≠ m * n then _ else _) = _
  rw [if_neg (not_not.2 hA), if_neg (not_not.2 hB), if_neg (not_not.2 houtput)]

private theorem validateExecutionNt_eq_ok {lengthA lengthB lengthOutput : ℕ} (hA : lengthA = m * k)
    (hB : lengthB = n * k) (houtput : lengthOutput = m * n) (hltA : lengthA < wordLimit)
    (hltB : lengthB < wordLimit) (hltOutput : lengthOutput < wordLimit) :
    validateExecutionNt lengthA lengthB lengthOutput m n k = .ok ⟨⟩ := by
  rw [validateExecutionNt, checkedMul_of_lt (hA ▸ hltA), checkedMul_of_lt (hB ▸ hltB),
    checkedMul_of_lt (houtput ▸ hltOutput)]
  change (if lengthA ≠ m * k then _ else if lengthB ≠ n * k then _
    else if lengthOutput ≠ m * n then _ else _) = _
  rw [if_neg (not_not.2 hA), if_neg (not_not.2 hB), if_neg (not_not.2 houtput)]

private theorem checkedMul₃_eq {x y z : ℕ} (hxy : x * y < wordLimit) (h : x * y * z < wordLimit) :
    checkedMul₃ x y z = .ok (x * y * z) := by
  rw [checkedMul₃, checkedMul_of_lt hxy, Option.bind_some, checkedMul_of_lt h]
  rfl

private theorem validateBatchedExecution_eq_ok {lengthA lengthB lengthOutput : ℕ}
    {transposedB : Bool} (hpos : 0 < batches) (hle : batches ≤ maxGridYBlocks)
    (hA : checkedMul₃ batches m k = .ok lengthA)
    (hB : packedB batches n k transposedB = .ok lengthB)
    (houtput : checkedMul₃ batches m n = .ok lengthOutput) :
    validateBatchedExecution lengthA lengthB lengthOutput batches m n k transposedB =
      .ok batches := by
  rw [validateBatchedExecution, if_neg hpos.ne', if_neg (Nat.not_lt.2 hle), hA, hB, houtput]
  change (if lengthA ≠ lengthA then _ else if lengthB ≠ lengthB then _
    else if lengthOutput ≠ lengthOutput then _ else _) = _
  rw [if_neg (not_not.2 rfl), if_neg (not_not.2 rfl), if_neg (not_not.2 rfl)]

/-- The packed rows and columns of a grid within its limits can be counted. -/
private theorem batches_mul_lt {count limit : ℕ} (hle : batches ≤ maxGridYBlocks)
    (hlimit : limit ≤ u32Limit) (hcount : count ⌈/⌉ gemm.tileSide ≤ limit) :
    batches * count < wordLimit := by
  have hcover := (ceilDiv_le_iff_le_mul (GemmPlan.tileSide_pos gemm)).1 hcount
  have hside : gemm.tileSide < 2 ^ 15 := by
    by_contra hge
    have hsquare := Nat.mul_le_mul (Nat.le_of_not_lt hge) (Nat.le_of_not_lt hge)
    have hshared := gemm.sharedMemory_lt
    rw [u32Limit] at hshared
    omega
  rw [maxGridYBlocks] at hle
  rw [u32Limit] at hlimit
  calc batches * count ≤ 65535 * (2 ^ 15 * 2 ^ 32) :=
        Nat.mul_le_mul hle (hcover.trans (Nat.mul_le_mul hside.le hlimit))
    _ < wordLimit := by norm_num [wordLimit]

/-- The batch of an element, and its place in it. -/
private theorem unpack_batch {i j : ℕ} (z : ℕ) (hi : i < m) (hj : j < n) :
    (z * (m * n) + (i * n + j)) / (m * n) = z ∧
      (z * (m * n) + (i * n + j)) % (m * n) = i * n + j := by
  have hlt : i * n + j < m * n := cell_lt hi hj
  rw [Nat.mul_comm z, Nat.mul_add_div (Nat.zero_lt_of_lt hlt), Nat.mul_add_mod,
    Nat.div_eq_of_lt hlt, Nat.mod_eq_of_lt hlt]
  exact ⟨rfl, rfl⟩

section EntryPoints

variable (hm : m ⌈/⌉ gemm.tileSide < u32Limit) (hn : n ⌈/⌉ gemm.tileSide ≤ maxGridYBlocks)
  (hltA : matrixA.length < wordLimit) (hltB : matrixB.length < wordLimit)

include hm hn hltA hltB

private theorem enqueueGemm_exact (hltOutput : m * n < wordLimit) (hA : matrixA.length = m * k)
    (hB : matrixB.length = k * n) : ∃ plan : GemmPlan,
      plan.Enqueued (gemm.enqueueGemm matrixA.length matrixB.length (m * n) m n k) ∧
        plan.Exact math gemm (fun _ => nnisGemmF32 m n k) matrixA matrixB (m * n)
          (gemmProduct math n k matrixA matrixB) := by
  have hresult : ∀ memory, HoldsOperands math matrixA matrixB memory → ∀ z < 1, ∀ i < m, ∀ j < n,
      (nnisGemmF32 m n k).element math memory i j =
        gemmProduct math n k matrixA matrixB (z * (m * n) + (i * n + j)) := by
    intro memory hmemory z hz i hi j hj
    rw [Nat.lt_one_iff.1 hz, Nat.zero_mul, Nat.zero_add]
    refine element_eq math hj rfl (fun e he => ?_) fun e he => ?_
    · exact (congrArg memory (congrArg _ (Nat.zero_add _))).trans (hmemory.1 _ (hA ▸ cell_lt hi he))
    · exact (congrArg memory (congrArg _ (Nat.zero_add _))).trans (hmemory.2 _ (hB ▸ cell_lt he hj))
  have hexact := GemmPlan.enqueueChecked_exact "gemm" "u32::MAX" (layers_gemm hA hB) hm hn hresult
    fun _ _ => rfl
  rw [Nat.one_mul] at hexact
  rwa [enqueueGemm, validateExecution_eq_ok hA hB rfl hltA hltB hltOutput,
    Fallible.ofExcept_ok_bind]

private theorem enqueueGemmTransposedB_exact (hltOutput : m * n < wordLimit)
    (hA : matrixA.length = m * k) (hB : matrixB.length = n * k) : ∃ plan : GemmPlan,
      plan.Enqueued (gemm.enqueueGemmTransposedB matrixA.length matrixB.length (m * n) m n k) ∧
        plan.Exact math gemm (fun _ => nnisGemmNtF32 m n k) matrixA matrixB (m * n)
          (gemmProduct math n k matrixA (storedTranspose math n k matrixB)) := by
  have hresult : ∀ memory, HoldsOperands math matrixA matrixB memory → ∀ z < 1, ∀ i < m, ∀ j < n,
      (nnisGemmNtF32 m n k).element math memory i j =
        gemmProduct math n k matrixA (storedTranspose math n k matrixB)
          (z * (m * n) + (i * n + j)) := by
    intro memory hmemory z hz i hi j hj
    rw [Nat.lt_one_iff.1 hz, Nat.zero_mul, Nat.zero_add]
    refine element_eq math hj rfl (fun e he => ?_) fun e he => ?_
    · exact (congrArg memory (congrArg _ (Nat.zero_add _))).trans (hmemory.1 _ (hA ▸ cell_lt hi he))
    · rw [getD_storedTranspose math he hj]
      exact (congrArg memory (congrArg _ (Nat.zero_add _))).trans (hmemory.2 _ (hB ▸ cell_lt hj he))
  have hexact := GemmPlan.enqueueChecked_exact "gemm-nt" "u32::MAX" (layers_gemmNt hA hB) hm hn
    hresult fun _ _ => rfl
  rw [Nat.one_mul] at hexact
  rwa [enqueueGemmTransposedB, validateExecutionNt_eq_ok hA hB rfl hltA hltB hltOutput,
    Fallible.ofExcept_ok_bind]

private theorem enqueueGemmBatched_exact (hpos : 0 < batches) (hbatches : batches ≤ maxGridYBlocks)
    (hk : n = 0 → batches * k < wordLimit) (hltOutput : batches * m * n < wordLimit)
    (hA : matrixA.length = batches * m * k) (hB : matrixB.length = batches * k * n) :
    ∃ plan : GemmPlan,
      plan.Enqueued (gemm.enqueueGemmBatched matrixA.length matrixB.length (batches * m * n) batches
          m n k) ∧
        plan.Exact math gemm (nnisGemmBatchedF32 m n k) matrixA matrixB (batches * m * n) fun o =>
          gemmProduct math n k (batchSlice (m * k) (o / (m * n)) matrixA)
            (batchSlice (k * n) (o / (m * n)) matrixB) (o % (m * n)) := by
  have hbatchRows : batches * m < wordLimit := gemm.batches_mul_lt hbatches le_rfl hm.le
  have hbatchInner : batches * k < wordLimit := by
    rcases Nat.eq_zero_or_pos n with hzero | hcols
    · exact hk hzero
    · exact (Nat.le_mul_of_pos_right _ hcols).trans_lt (hB ▸ hltB)
  have hcheckedA : checkedMul₃ batches m k = .ok matrixA.length :=
    hA ▸ checkedMul₃_eq hbatchRows (hA ▸ hltA)
  have hcheckedB : packedB batches n k false = .ok matrixB.length :=
    hB ▸ checkedMul₃_eq hbatchInner (hB ▸ hltB)
  set result : ℕ → α := fun o => gemmProduct math n k (batchSlice (m * k) (o / (m * n)) matrixA)
    (batchSlice (k * n) (o / (m * n)) matrixB) (o % (m * n)) with hdef
  have hresult : ∀ memory, HoldsOperands math matrixA matrixB memory →
      ∀ z < batches, ∀ i < m, ∀ j < n, (nnisGemmBatchedF32 m n k z).element math memory i j =
        result (z * (m * n) + (i * n + j)) := by
    intro memory hmemory z hz i hi j hj
    obtain ⟨hbatch, hplace⟩ := unpack_batch z hi hj
    simp only [hdef, hbatch, hplace]
    exact element_eq math hj rfl (fun e he => packed_eq math hA hmemory.1 hz hi he)
      fun e he => packed_eq math hB hmemory.2 hz he hj
  have hexact := GemmPlan.enqueueChecked_exact "batched gemm" "u32" (layers_gemmBatched hA hB) hm hn
    hresult fun _ _ => rfl
  rw [← Nat.mul_assoc] at hexact
  rwa [enqueueGemmBatched, validateBatchedExecution_eq_ok hpos hbatches hcheckedA hcheckedB
    (checkedMul₃_eq hbatchRows hltOutput), Fallible.ofExcept_ok_bind]

private theorem enqueueGemmTransposedBBatched_exact (hpos : 0 < batches)
    (hbatches : batches ≤ maxGridYBlocks) (hltOutput : batches * m * n < wordLimit)
    (hA : matrixA.length = batches * m * k) (hB : matrixB.length = batches * n * k) :
    ∃ plan : GemmPlan,
      plan.Enqueued (gemm.enqueueGemmTransposedBBatched matrixA.length matrixB.length
          (batches * m * n) batches m n k) ∧
        plan.Exact math gemm (nnisGemmNtBatchedF32 m n k) matrixA matrixB (batches * m * n) fun o =>
          gemmProduct math n k (batchSlice (m * k) (o / (m * n)) matrixA)
            (storedTranspose math n k (batchSlice (n * k) (o / (m * n)) matrixB))
            (o % (m * n)) := by
  have hbatchRows : batches * m < wordLimit := gemm.batches_mul_lt hbatches le_rfl hm.le
  have hbatchCols : batches * n < wordLimit := gemm.batches_mul_lt hbatches (by decide) hn
  have hcheckedA : checkedMul₃ batches m k = .ok matrixA.length :=
    hA ▸ checkedMul₃_eq hbatchRows (hA ▸ hltA)
  have hcheckedB : packedB batches n k true = .ok matrixB.length :=
    hB ▸ checkedMul₃_eq hbatchCols (hB ▸ hltB)
  set result : ℕ → α := fun o => gemmProduct math n k (batchSlice (m * k) (o / (m * n)) matrixA)
    (storedTranspose math n k (batchSlice (n * k) (o / (m * n)) matrixB)) (o % (m * n)) with hdef
  have hresult : ∀ memory, HoldsOperands math matrixA matrixB memory →
      ∀ z < batches, ∀ i < m, ∀ j < n, (nnisGemmNtBatchedF32 m n k z).element math memory i j =
        result (z * (m * n) + (i * n + j)) := by
    intro memory hmemory z hz i hi j hj
    obtain ⟨hbatch, hplace⟩ := unpack_batch z hi hj
    simp only [hdef, hbatch, hplace]
    refine element_eq math hj rfl (fun e he => packed_eq math hA hmemory.1 hz hi he) fun e he => ?_
    rw [getD_storedTranspose math he hj]
    exact packed_eq math hB hmemory.2 hz hj he
  have hexact := GemmPlan.enqueueChecked_exact "batched gemm-nt" "u32" (layers_gemmNtBatched hA hB)
    hm hn hresult fun _ _ => rfl
  rw [← Nat.mul_assoc] at hexact
  rwa [enqueueGemmTransposedBBatched, validateBatchedExecution_eq_ok hpos hbatches hcheckedA
    hcheckedB (checkedMul₃_eq hbatchRows hltOutput), Fallible.ofExcept_ok_bind]

end EntryPoints

/-- Within the limits of a grid each of the four entry points returns, if the driver accepts what it
submits, and computes its product: that of the operands, that with the transpose of the second one,
and those of their slices. -/
theorem products_exact (hm : m ⌈/⌉ gemm.tileSide < u32Limit)
    (hn : n ⌈/⌉ gemm.tileSide ≤ maxGridYBlocks) (hpos : 0 < batches)
    (hbatches : batches ≤ maxGridYBlocks) (hk : n = 0 → batches * k < wordLimit)
    (hltA : matrixA.length < wordLimit) (hltB : matrixB.length < wordLimit)
    (hltOutput : batches * m * n < wordLimit) :
    (matrixA.length = m * k → matrixB.length = k * n → ∃ plan : GemmPlan,
      plan.Enqueued (gemm.enqueueGemm matrixA.length matrixB.length (m * n) m n k) ∧
        plan.Exact math gemm (fun _ => nnisGemmF32 m n k) matrixA matrixB (m * n)
          (gemmProduct math n k matrixA matrixB)) ∧
    (matrixA.length = m * k → matrixB.length = n * k → ∃ plan : GemmPlan,
      plan.Enqueued (gemm.enqueueGemmTransposedB matrixA.length matrixB.length (m * n) m n k) ∧
        plan.Exact math gemm (fun _ => nnisGemmNtF32 m n k) matrixA matrixB (m * n)
          (gemmProduct math n k matrixA (storedTranspose math n k matrixB))) ∧
    (matrixA.length = batches * m * k → matrixB.length = batches * k * n → ∃ plan : GemmPlan,
      plan.Enqueued (gemm.enqueueGemmBatched matrixA.length matrixB.length (batches * m * n) batches
          m n k) ∧
        plan.Exact math gemm (nnisGemmBatchedF32 m n k) matrixA matrixB (batches * m * n) fun o =>
          gemmProduct math n k (batchSlice (m * k) (o / (m * n)) matrixA)
            (batchSlice (k * n) (o / (m * n)) matrixB) (o % (m * n))) ∧
    (matrixA.length = batches * m * k → matrixB.length = batches * n * k → ∃ plan : GemmPlan,
      plan.Enqueued (gemm.enqueueGemmTransposedBBatched matrixA.length matrixB.length
          (batches * m * n) batches m n k) ∧
        plan.Exact math gemm (nnisGemmNtBatchedF32 m n k) matrixA matrixB (batches * m * n) fun o =>
          gemmProduct math n k (batchSlice (m * k) (o / (m * n)) matrixA)
            (storedTranspose math n k (batchSlice (n * k) (o / (m * n)) matrixB))
            (o % (m * n))) := by
  have hltProduct : m * n < wordLimit := by
    refine lt_of_le_of_lt ?_ hltOutput
    rw [Nat.mul_assoc]
    exact Nat.le_mul_of_pos_left _ hpos
  exact ⟨gemm.enqueueGemm_exact math hm hn hltA hltB hltProduct,
    gemm.enqueueGemmTransposedB_exact math hm hn hltA hltB hltProduct,
    gemm.enqueueGemmBatched_exact math hm hn hltA hltB hpos hbatches hk hltOutput,
    gemm.enqueueGemmTransposedBBatched_exact math hm hn hltA hltB hpos hbatches hltOutput⟩

/-- A product of two rows and one column by blocks of two rows and two columns. -/
theorem products_exact_six :
    let gemm : F32Gemm := ⟨2, ⟨1, rfl⟩, by decide⟩
    let math : GemmMath ℕ := ⟨0, fun x y value => x * y + value, Nat.zero_add⟩
    ∃ plan : GemmPlan, plan.Enqueued (gemm.enqueueGemm 6 3 2 2 1 3) ∧
      plan.Exact math gemm (fun _ => nnisGemmF32 2 1 3) [1, 2, 3, 4, 5, 6] [1, 2, 3] 2
        (gemmProduct math 1 3 [1, 2, 3, 4, 5, 6] [1, 2, 3]) := by
  intro gemm math
  have hrows : 2 ⌈/⌉ gemm.tileSide = 1 := by decide
  have hcols : 1 ⌈/⌉ gemm.tileSide = 1 := by decide
  have h := @products_exact ℕ gemm math 1 2 1 3 [1, 2, 3, 4, 5, 6] [1, 2, 3] (hrows ▸ by decide)
    (hcols ▸ by decide) (by decide) (by decide) (by decide) (by decide) (by decide) (by decide)
  exact h.1 rfl rfl

end F32Gemm

end NNIS
