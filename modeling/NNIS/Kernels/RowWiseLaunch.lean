import NNIS.Kernels.RowWiseBlock
import NNIS.Kernels.RowWisePlan

/-!
# Launches of the row-wise operators

The blocks of a launch own the cells that they write, so a launch leaves their values in any order
of the blocks, also when it reads what it writes. The launches of a pipeline follow one another:
each finds the columns and the matrix that those before it have left. The fused kernel and the
pipeline of an operator so leave the same row function of the input.

## Main definitions

* `RowLaunch.Leaves`, `RowLaunch.PlanLeads` — what launches leave of a memory.
* `rowwise`, `RowResult` — a function of rows on a matrix, and an output that holds its values.

## Main results

* `leads_fused`, `leads_softmaxRows`, `leads_layerNormRows`, `leads_rmsNormRows`.
-/

set_option autoImplicit false

namespace NNIS

open Block RowThread TreeReduction

variable {α : Type}

/-! ### Launches -/

namespace RowLaunch

/-- What a launch leaves of a memory: some cells hold values, and the other global ones what they
held. -/
structure Leaves (launch : RowLaunch α) (memory : RowCell → α) (written : Set RowCell)
    (value : RowCell → α) : Prop where
  runs : ∃ memory', launch.Performs memory memory'
  leaves : ∀ memory', launch.Performs memory memory' → ∀ c ∈ written, memory' c = value c
  keeps : ∀ memory', launch.Performs memory memory' →
    ∀ c ∉ RowCell.sharedMemory, c ∉ written → memory' c = memory c

/-- Submitted launches can be performed, and whatever they leave satisfies a condition. -/
def PlanLeads (plan : List (RowLaunch α)) (memory : RowCell → α) (post : (RowCell → α) → Prop) :
    Prop :=
  (∃ memory', PlanPerforms plan memory memory') ∧
    ∀ memory', PlanPerforms plan memory memory' → post memory'

theorem PlanLeads.nil {memory : RowCell → α} {post : (RowCell → α) → Prop} (h : post memory) :
    PlanLeads [] memory post :=
  ⟨⟨memory, rfl⟩, fun _ hperforms => Eq.symm hperforms ▸ h⟩

theorem PlanLeads.cons {launch : RowLaunch α} {plan : List (RowLaunch α)} {memory : RowCell → α}
    {post : (RowCell → α) → Prop} {written : Set RowCell} {value : RowCell → α}
    (hlaunch : launch.Leaves memory written value)
    (h : ∀ memory₁ : RowCell → α, (∀ c ∈ written, memory₁ c = value c) →
      (∀ c ∉ RowCell.sharedMemory, c ∉ written → memory₁ c = memory c) →
        PlanLeads plan memory₁ post) :
    PlanLeads (launch :: plan) memory post := by
  have hnext (memory₁ : RowCell → α) (hperforms : launch.Performs memory memory₁) :=
    h memory₁ (hlaunch.leaves memory₁ hperforms) (hlaunch.keeps memory₁ hperforms)
  constructor
  · obtain ⟨memory₁, hperforms⟩ := hlaunch.runs
    obtain ⟨⟨memory', hplan⟩, -⟩ := hnext memory₁ hperforms
    exact ⟨memory', memory₁, hperforms, hplan⟩
  · rintro memory' ⟨memory₁, hperforms, hplan⟩
    exact (hnext memory₁ hperforms).2 memory' hplan

/-- A launch whose blocks own their cells. -/
theorem leaves_of_effects {launch : RowLaunch α} {memory value : RowCell → α}
    {operands writes : ℕ → Set RowCell}
    (hoperands : ∀ i < launch.gridSize, ∀ c ∈ operands i, c ∉ RowCell.sharedMemory)
    (heffect : ∀ i < launch.gridSize, BlockEffect RowCell.sharedMemory (operands i)
      launch.blockSize (launch.thread i) (writes i) memory value)
    (hseparate : ∀ i < launch.gridSize, ∀ j < launch.gridSize, i ≠ j →
      ∀ c ∈ writes i, c ∉ operands j) :
    launch.Leaves memory {c | ∃ i < launch.gridSize, c ∈ writes i} value := by
  have hpairwise {order : List ℕ} (hperm : order.Perm (List.range launch.gridSize)) :
      order.Pairwise fun i j => ∀ c ∈ writes i, c ∉ operands j :=
    (nodup_order hperm).imp_of_mem fun hi hj hne =>
      hseparate _ ((mem_order hperm).1 hi) _ ((mem_order hperm).1 hj) hne
  have hspec {order : List ℕ} (hperm : order.Perm (List.range launch.gridSize))
      {memory' : RowCell → α} (hlaunch : @Launches RowCell (fun _ => α) Unit ℕ _
        RowCell.sharedMemory launch.blockSize launch.thread order memory memory') :=
    hlaunch.effects (fun i hi => hoperands i ((mem_order hperm).1 hi))
      (fun i hi => heffect i ((mem_order hperm).1 hi)) (hpairwise hperm) fun _ _ _ _ => rfl
  refine ⟨?_, fun memory' hperforms c hc => ?_, fun memory' hperforms c hc hnone => ?_⟩
  · obtain ⟨memory', hlaunch⟩ := exists_launches_of_effects
      (fun i hi => hoperands i (List.mem_range.1 hi)) (fun i hi => heffect i (List.mem_range.1 hi))
      (hpairwise (List.Perm.refl _)) fun _ _ _ _ => rfl
    exact ⟨memory', _, List.Perm.refl _, hlaunch⟩
  · obtain ⟨order, hperm, hlaunch⟩ := hperforms
    obtain ⟨i, hi, hc⟩ := hc
    exact (hspec hperm hlaunch).1 i ((mem_order hperm).2 hi) c hc
  · obtain ⟨order, hperm, hlaunch⟩ := hperforms
    exact (hspec hperm hlaunch).2 c hc fun i hi hmem => hnone ⟨i, (mem_order hperm).1 hi, hmem⟩

end RowLaunch

/-! ### The launches of the operators -/

section Operators

variable {rows cols width bytes : ℕ} {input output : RowBuffer} {memory value : RowCell → α}
  {plan : List (RowLaunch α)} {post : (RowCell → α) → Prop}

theorem global_notMem (buffer : RowBuffer) (i : ℕ) :
    RowCell.global buffer i ∉ RowCell.sharedMemory := fun ⟨_, h⟩ => nomatch h

private theorem rowCells_global {buffer : RowBuffer} {row : ℕ} :
    ∀ c ∈ rowCells buffer cols row, c ∉ RowCell.sharedMemory := by
  rintro c ⟨i, -, rfl⟩
  exact global_notMem _ _

/-- An index of the matrix is that of a row and of a column. -/
theorem exists_row {o : ℕ} (ho : o < rows * cols) :
    o / cols < rows ∧ o % cols < cols ∧ o / cols * cols + o % cols = o := by
  have hcols : 0 < cols := Nat.pos_of_mul_pos_left (Nat.zero_lt_of_lt ho)
  exact ⟨Nat.div_lt_of_lt_mul (by rwa [Nat.mul_comm]), Nat.mod_lt _ hcols, Nat.div_add_mod' o cols⟩

theorem row_lt {i j : ℕ} (hi : i < rows) (hj : j < cols) : i * cols + j < rows * cols :=
  calc i * cols + j < i * cols + cols := Nat.add_lt_add_left hj _
    _ = (i + 1) * cols := (Nat.succ_mul _ _).symm
    _ ≤ rows * cols := Nat.mul_le_mul_right _ hi

/-- A function of rows on a matrix. -/
def rowwise (cols : ℕ) (f : (ℕ → α) → ℕ → α) (x : ℕ → α) (o : ℕ) : α :=
  f (fun j => x (o / cols * cols + j)) (o % cols)

/-- The row and the column of a place. -/
private theorem place_eq (i : ℕ) {j : ℕ} (hj : j < cols) :
    (i * cols + j) / cols = i ∧ (i * cols + j) % cols = j := by
  rw [Nat.mul_comm, Nat.mul_add_div (Nat.zero_lt_of_lt hj), Nat.div_eq_of_lt hj, Nat.mul_add_mod,
    Nat.mod_eq_of_lt hj, Nat.add_zero]
  exact ⟨rfl, rfl⟩

theorem rowwise_eq {f : (ℕ → α) → ℕ → α} {x : ℕ → α} {i j : ℕ} (hj : j < cols) :
    rowwise cols f x (i * cols + j) = f (fun j => x (i * cols + j)) j := by
  obtain ⟨hdiv, hmod⟩ := place_eq i hj
  rw [rowwise, hdiv, hmod]

/-- What an operator leaves: its result in the output, and the input and the rest of the output as
they were. -/
def RowResult (input output : RowBuffer) (count : ℕ) (result : ℕ → α)
    (memory memory' : RowCell → α) : Prop :=
  (∀ o < count, memory' (.global output o) = result o) ∧
    (input ≠ output → ∀ i, memory' (.global input i) = memory (.global input i)) ∧
    ∀ o, count ≤ o → memory' (.global output o) = memory (.global output o)

/-- A launch of a fused kernel. -/
theorem leads_fused {thread : ℕ → ℕ → RowThread α Unit} {result : ℕ → α}
    (heffect : ∀ row < rows, ∀ value : RowCell → α,
      (∀ i < cols, value (.global output (row * cols + i)) = result (row * cols + i)) →
        BlockEffect RowCell.sharedMemory (rowCells input cols row) width (thread row)
          (rowCells output cols row) memory value) :
    RowLaunch.PlanLeads [⟨rows, width, bytes, thread⟩] memory
      (RowResult input output (rows * cols) result memory) := by
  let value : RowCell → α
    | .global _ o => result o
    | .shared i => memory (.shared i)
  have hseparate : ∀ i < rows, ∀ j < rows, i ≠ j → ∀ c ∈ rowCells output cols i,
      c ∉ rowCells input cols j := by
    rintro row - row' - hne c ⟨i, hi, rfl⟩ ⟨j, hj, heq⟩
    exact hne (rowMajor_injective hi hj (RowCell.global.inj heq).2).1
  have hleaves : (⟨rows, width, bytes, thread⟩ : RowLaunch α).Leaves memory
      {c | ∃ i < rows, c ∈ rowCells output cols i} value :=
    RowLaunch.leaves_of_effects (fun _ _ => rowCells_global)
      (fun row hrow => heffect row hrow value fun _ _ => rfl) hseparate
  refine .cons hleaves fun memory₁ hwritten hkept => .nil ?_
  have hother (buffer : RowBuffer) (o : ℕ) (hne : buffer ≠ output ∨ rows * cols ≤ o) :
      memory₁ (.global buffer o) = memory (.global buffer o) := by
    refine hkept _ (global_notMem _ _) ?_
    rintro ⟨row, hrow, i, hi, heq⟩
    obtain ⟨hbuffer, hindex⟩ := RowCell.global.inj heq
    rcases hne with hne | hle
    · exact hne hbuffer
    · have hlt := row_lt hrow hi
      omega
  refine ⟨fun o ho => ?_, fun hne i => hother input i (.inl hne), fun o ho =>
    hother output o (.inr ho)⟩
  obtain ⟨hrow, hcol, heq⟩ := exists_row ho
  exact hwritten _ ⟨o / cols, hrow, o % cols, hcol, by rw [heq]⟩

/-- A launch that reduces each row into a column. -/
private theorem leads_rowReduction (hwidth : 0 < width) {column : RowBuffer}
    (hne : column ≠ input) {element : ℕ → ℕ → RowThread α α} (elements : ℕ → ℕ → α)
    {combine : α → α → α} {empty : α}
    (hwithin : ∀ row i, (element row i).Within ⟨{.global input (row * cols + i)}, ∅⟩)
    (heval : ∀ row < rows, ∀ i < cols, ∀ m : RowCell → α,
      m (.global input (row * cols + i)) = memory (.global input (row * cols + i)) →
        ((element row i).eval m).1 = elements row i)
    (h : ∀ memory₁ : RowCell → α,
      (∀ row < rows,
        memory₁ (.global column row) = ofStrided combine empty width cols (elements row)) →
      (∀ buffer ≠ column, ∀ i, memory₁ (.global buffer i) = memory (.global buffer i)) →
        RowLaunch.PlanLeads plan memory₁ post) :
    RowLaunch.PlanLeads (⟨rows, width, bytes, fun row lane =>
      rowReduction cols width row lane combine empty (element row) column⟩ :: plan)
        memory post := by
  let value : RowCell → α
    | .global _ row => ofStrided combine empty width cols (elements row)
    | .shared i => memory (.shared i)
  have hseparate : ∀ i < rows, ∀ j < rows, i ≠ j →
      ∀ c ∈ ({.global column i} : Set RowCell), c ∉ rowCells input cols j := by
    rintro i - j - - c rfl ⟨k, -, heq⟩
    exact hne (RowCell.global.inj heq).1
  have hleaves : (⟨rows, width, bytes, fun row lane => rowReduction cols width row lane combine
      empty (element row) column⟩ : RowLaunch α).Leaves memory
        {c | ∃ i < rows, c ∈ ({.global column i} : Set RowCell)} value :=
    RowLaunch.leaves_of_effects (fun _ _ => rowCells_global)
      (fun row hrow => rowReduction_effect hwidth (elements row) (fun i _ => hwithin row i)
        (heval row hrow) rfl) hseparate
  refine .cons hleaves fun memory₁ hwritten hkept => h memory₁
    (fun row hrow => hwritten _ ⟨row, hrow, rfl⟩) fun buffer hbuffer i =>
      hkept _ (global_notMem _ _) ?_
  rintro ⟨row, -, heq⟩
  exact hbuffer (RowCell.global.inj heq).1

/-- A launch with a thread for each element. -/
private theorem leads_elementwise {grid count : ℕ} (hgrid : count ⌈/⌉ width ≤ grid)
    (hwidth : 0 < width) {body : ℕ → RowThread α Unit} {reads : ℕ → Set RowCell} (result : ℕ → α)
    (hreads : ∀ i, ∀ c ∈ reads i, c ∉ RowCell.sharedMemory)
    (hseparate : ∀ i j, i ≠ j → .global output i ∉ reads j)
    (hwithin : ∀ i, (body i).Within ⟨reads i, {.global output i}⟩)
    (heval : ∀ i < count, ∀ m : RowCell → α, (∀ c ∈ reads i, m c = memory c) →
      ((body i).eval m).2 (.global output i) = result i)
    (h : ∀ memory₁ : RowCell → α, (∀ i < count, memory₁ (.global output i) = result i) →
      (∀ buffer i, (buffer ≠ output ∨ count ≤ i) →
        memory₁ (.global buffer i) = memory (.global buffer i)) →
          RowLaunch.PlanLeads plan memory₁ post) :
    RowLaunch.PlanLeads (⟨grid, width, bytes, fun blockIdx lane =>
      elementwise width blockIdx lane count body⟩ :: plan) memory post := by
  let f (i : ℕ) : Footprint RowCell := ⟨reads i, {.global output i}⟩
  let value : RowCell → α
    | .global _ i => result i
    | .shared i => memory (.shared i)
  have hf : Separate count f := by
    rintro i - j - hne c rfl
    exact ⟨hseparate i j hne, fun heq => hne (RowCell.global.inj heq).2⟩
  have hown : ∀ i < grid, ∀ j < grid, i ≠ j →
      ∀ c ∈ elementWrites f count width i, c ∉ elementReads f count width j := by
    rintro i - j - hne c ⟨lane, hlane, -, rfl⟩ ⟨lane', hlane', -, hmem⟩
    exact hseparate _ _ (fun heq => hne (rowMajor_injective hlane hlane' heq).1) hmem
  have hleaves : (⟨grid, width, bytes, fun blockIdx lane =>
      elementwise width blockIdx lane count body⟩ : RowLaunch α).Leaves memory
        {c | ∃ i < grid, c ∈ elementWrites f count width i} value := by
    have hoperands : ∀ i < grid, ∀ c ∈ elementReads f count width i, c ∉ RowCell.sharedMemory :=
      fun i _ c ⟨lane, _, _, hc⟩ => hreads _ c hc
    refine RowLaunch.leaves_of_effects hoperands
      (fun i _ => elementwise_effect (fun i _ => hwithin i) hf ?_ fun i hi m hm c hc => ?_) hown
    · rintro i - c rfl
      exact global_notMem _ _
    · rw [show c = .global output i from hc]
      exact heval i hi m hm
  have hcover : count ≤ grid * width := by
    rw [Nat.mul_comm]
    exact (ceilDiv_le_iff_le_mul hwidth).1 hgrid
  refine .cons hleaves fun memory₁ hwritten hkept => h memory₁ (fun i hi => ?_)
    fun buffer i hother => hkept _ (global_notMem _ _) ?_
  · have hindex := Nat.div_add_mod' i width
    have hblock : i / width < grid :=
      Nat.div_lt_of_lt_mul (by rw [Nat.mul_comm]; exact hi.trans_le hcover)
    refine hwritten _ ⟨i / width, hblock, i % width, Nat.mod_lt i hwidth, ?_, ?_⟩
    · rwa [hindex]
    · rw [hindex]
      exact rfl
  · rintro ⟨blockIdx, -, lane, -, hlt, heq⟩
    obtain ⟨hbuffer, hindex⟩ := RowCell.global.inj heq
    rcases hother with hne | hle
    · exact hne hbuffer
    · omega

section Pipelines

variable {math : RowMath α} {x : ℕ → α} {grid bytes₁ bytes₂ bytes₃ : ℕ}

private theorem reads_global (buffer : RowBuffer) (columns : Set RowBuffer) (i : ℕ) :
    ∀ c ∈ ({c | c = .global buffer i ∨ ∃ column ∈ columns, c = .global column (i / cols)} :
      Set RowCell), c ∉ RowCell.sharedMemory := by
  rintro c (rfl | ⟨column, -, rfl⟩)
  · exact global_notMem _ _
  · exact global_notMem _ _

private theorem notMem_reads {buffer : RowBuffer} {columns : Set RowBuffer}
    (houtput : output ∉ columns) (i j : ℕ) (hne : i ≠ j) : RowCell.global output i ∉
      ({c | c = .global buffer j ∨ ∃ column ∈ columns, c = .global column (j / cols)} :
        Set RowCell) := by
  rintro (heq | ⟨column, hcolumn, heq⟩)
  · exact hne (RowCell.global.inj heq).2
  · exact houtput ((RowCell.global.inj heq).1 ▸ hcolumn)

/-- The pipeline of row softmax. -/
theorem leads_softmaxRows (hwidth : 0 < width) (hgrid : (rows * cols) ⌈/⌉ width ≤ grid)
    (hinput : input ≠ .rowScalars) (houtput : output ≠ .rowScalars)
    (hx : ∀ i < rows * cols, memory (.global input i) = x i) :
    RowLaunch.PlanLeads [
        ⟨rows, width, bytes, fun row lane =>
          nnisSoftmaxRowMaxF32 math cols width row lane input .rowScalars⟩,
        ⟨grid, width, bytes₁, fun blockIdx lane =>
          nnisSoftmaxRowExpShiftF32 math cols width blockIdx lane rows input output .rowScalars⟩,
        ⟨rows, width, bytes₂, fun row lane =>
          nnisSoftmaxRowSumF32 math cols width row lane output .rowScalars⟩,
        ⟨grid, width, bytes₃, fun blockIdx lane =>
          nnisSoftmaxRowNormalizeF32 math cols width blockIdx lane rows output .rowScalars⟩] memory
      (RowResult input output (rows * cols) (rowwise cols (softmaxRow math width cols) x)
        memory) := by
  let maximum (row : ℕ) : α :=
    ofStrided math.fmaxf math.negInf width cols fun j => x (row * cols + j)
  let exponential (row j : ℕ) : α := math.expf (math.sub (x (row * cols + j)) (maximum row))
  let sum (row : ℕ) : α := ofStrided math.add math.zero width cols (exponential row)
  have hcolumns : output ∉ ({.rowScalars} : Set RowBuffer) := houtput
  refine leads_rowReduction hwidth hinput.symm (fun row j => x (row * cols + j))
    (fun _ _ => Thread.Within.load rfl) (fun row hrow i hi m hm => hm.trans (hx _ (row_lt hrow hi)))
    fun m₁ hmax hkept₁ => ?_
  refine leads_elementwise hgrid hwidth (fun o => exponential (o / cols) (o % cols))
    (reads_global input {.rowScalars}) (notMem_reads hcolumns)
    (fun i => ⟨.inl rfl, fun _ => ⟨.inr ⟨_, rfl, rfl⟩, fun _ => ⟨rfl, trivial⟩⟩⟩)
    (fun i hi m hm => ?_) fun m₂ hexp hkept₂ => ?_
  · obtain ⟨hrow, -, hindex⟩ := exists_row hi
    have hvalue : m (.global input i) = x i :=
      (hm _ (.inl rfl)).trans ((hkept₁ input hinput i).trans (hx i hi))
    have hmaximum : m (.global .rowScalars (i / cols)) = maximum (i / cols) :=
      (hm _ (.inr ⟨_, rfl, rfl⟩)).trans (hmax _ hrow)
    refine (Function.update_self ..).trans ?_
    rw [hvalue, hmaximum]
    exact congrArg (fun v => math.expf (math.sub v _)) (congrArg x hindex).symm
  refine leads_rowReduction hwidth houtput.symm exponential (fun _ _ => Thread.Within.load rfl)
    (fun row hrow i hi m hm => ?_) fun m₃ hsum hkept₃ => ?_
  · have hvalue := hm.trans (hexp _ (row_lt hrow hi))
    obtain ⟨hdiv, hmod⟩ := place_eq row hi
    rw [hdiv, hmod] at hvalue
    exact hvalue
  refine leads_elementwise hgrid hwidth
    (fun o => math.div (exponential (o / cols) (o % cols)) (sum (o / cols)))
    (reads_global output {.rowScalars}) (notMem_reads hcolumns)
    (fun i => ⟨.inl rfl, fun _ => ⟨.inr ⟨_, rfl, rfl⟩, fun _ => ⟨rfl, trivial⟩⟩⟩)
    (fun i hi m hm => ?_) fun m₄ hresult hkept₄ =>
      .nil ⟨fun o ho => ?_, fun hne i => ?_, fun o ho => ?_⟩
  · obtain ⟨hrow, -, -⟩ := exists_row hi
    have hvalue : m (.global output i) = exponential (i / cols) (i % cols) :=
      (hm _ (.inl rfl)).trans ((hkept₃ output houtput i).trans (hexp i hi))
    have htotal : m (.global .rowScalars (i / cols)) = sum (i / cols) :=
      (hm _ (.inr ⟨_, rfl, rfl⟩)).trans (hsum _ hrow)
    refine (Function.update_self ..).trans ?_
    rw [hvalue, htotal]
  · exact hresult o ho
  · rw [hkept₄ input i (.inl hne), hkept₃ input hinput, hkept₂ input i (.inl hne),
      hkept₁ input hinput]
  · rw [hkept₄ output o (.inr ho), hkept₃ output houtput, hkept₂ output o (.inr ho),
      hkept₁ output houtput]

/-- The sum of the squared deviations of a row from its mean. -/
def rowDeviation (math : RowMath α) (width cols : ℕ) (x : ℕ → α) : α :=
  ofStrided math.add math.zero width cols fun j =>
    math.mul (math.sub (x j) (rowMean math width cols x))
      (math.sub (x j) (rowMean math width cols x))

/-- A launch that leaves the statistics of each row. -/
private theorem leads_rowStats (hwidth : 0 < width) (hcols : 0 < cols) (hmeans : input ≠ .rowMeans)
    (hvars : input ≠ .rowVars) (hx : ∀ i < rows * cols, memory (.global input i) = x i)
    (h : ∀ memory₁ : RowCell → α,
      (∀ row < rows, memory₁ (.global .rowMeans row) =
        rowMean math width cols fun j => x (row * cols + j)) →
      (∀ row < rows, memory₁ (.global .rowVars row) =
        rowDeviation math width cols fun j => x (row * cols + j)) →
      (∀ buffer, buffer ≠ .rowMeans → buffer ≠ .rowVars →
        ∀ i, memory₁ (.global buffer i) = memory (.global buffer i)) →
        RowLaunch.PlanLeads plan memory₁ post) :
    RowLaunch.PlanLeads (⟨rows, width, bytes, fun row lane =>
      nnisLayernormRowStatsF32 math cols width row lane input .rowMeans .rowVars⟩ :: plan)
        memory post := by
  let value : RowCell → α
    | .global .rowMeans row => rowMean math width cols fun j => x (row * cols + j)
    | .global _ row => rowDeviation math width cols fun j => x (row * cols + j)
    | .shared i => memory (.shared i)
  have hseparate : ∀ i < rows, ∀ j < rows, i ≠ j →
      ∀ c ∈ ({.global .rowMeans i, .global .rowVars i} : Set RowCell),
        c ∉ rowCells input cols j := by
    rintro i - j - - c (rfl | rfl) ⟨k, -, heq⟩
    · exact hmeans (RowCell.global.inj heq).1.symm
    · exact hvars (RowCell.global.inj heq).1.symm
  have hne : RowBuffer.rowMeans ≠ .rowVars := nofun
  have heffect (row : ℕ) (hrow : row < rows) :
      BlockEffect RowCell.sharedMemory (rowCells input cols row) width
        (fun lane => nnisLayernormRowStatsF32 math cols width row lane input .rowMeans .rowVars)
        {.global .rowMeans row, .global .rowVars row} memory value := by
    have hrowInput (i : ℕ) (hi : i < cols) :
        memory (.global input (row * cols + i)) = x (row * cols + i) := hx _ (row_lt hrow hi)
    exact layernormRowStats_effect hwidth hcols math hne hrowInput rfl rfl
  have hleaves : (⟨rows, width, bytes, fun row lane => nnisLayernormRowStatsF32 math cols width row
      lane input .rowMeans .rowVars⟩ : RowLaunch α).Leaves memory
        {c | ∃ i < rows, c ∈ ({.global .rowMeans i, .global .rowVars i} : Set RowCell)} value :=
    RowLaunch.leaves_of_effects (fun _ _ => rowCells_global) heffect hseparate
  refine .cons hleaves fun memory₁ hwritten hkept => h memory₁
    (fun row hrow => hwritten _ ⟨row, hrow, .inl rfl⟩)
    (fun row hrow => hwritten _ ⟨row, hrow, .inr rfl⟩)
    fun buffer hmean hvar i => hkept _ (global_notMem _ _) ?_
  rintro ⟨row, -, heq | heq⟩
  · exact hmean (RowCell.global.inj heq).1
  · exact hvar (RowCell.global.inj heq).1

/-- The pipeline of layer norm. -/
theorem leads_layerNormRows (hwidth : 0 < width) (hcols : 0 < cols)
    (hgrid : (rows * cols) ⌈/⌉ width ≤ grid)
    (hinput : input ∉ ({.rowMeans, .rowVars} : Set RowBuffer))
    (houtput : output ∉ ({.rowMeans, .rowVars} : Set RowBuffer)) (epsilon gamma beta : α)
    (hx : ∀ i < rows * cols, memory (.global input i) = x i) :
    RowLaunch.PlanLeads [
        ⟨rows, width, bytes, fun row lane =>
          nnisLayernormRowStatsF32 math cols width row lane input .rowMeans .rowVars⟩,
        ⟨grid, width, bytes₁, fun blockIdx lane =>
          nnisLayernormNormalizeF32 math cols width blockIdx lane rows input output
            .rowMeans .rowVars
            (math.div math.one (math.ofCols cols)) epsilon gamma beta⟩] memory
      (RowResult input output (rows * cols)
        (rowwise cols (layerNormRow math width cols epsilon gamma beta) x) memory) := by
  have hinput' : input ≠ .rowMeans ∧ input ≠ .rowVars :=
    ⟨fun h => hinput (.inl h), fun h => hinput (.inr h)⟩
  have houtput' : output ≠ .rowMeans ∧ output ≠ .rowVars :=
    ⟨fun h => houtput (.inl h), fun h => houtput (.inr h)⟩
  refine leads_rowStats hwidth hcols hinput'.1 hinput'.2 hx fun m₁ hmean hvar hkept₁ => ?_
  refine leads_elementwise hgrid hwidth
    (rowwise cols (layerNormRow math width cols epsilon gamma beta) x)
    (reads_global input {.rowMeans, .rowVars}) (notMem_reads houtput)
    (fun i => ⟨.inr ⟨_, .inr rfl, rfl⟩, fun _ => ⟨.inl rfl, fun _ => ⟨.inr ⟨_, .inl rfl, rfl⟩,
      fun _ => ⟨rfl, trivial⟩⟩⟩⟩)
    (fun i hi m hm => ?_) fun m₂ hresult hkept₂ => .nil ⟨hresult, fun hne i => ?_, fun o ho => ?_⟩
  · obtain ⟨hrow, -, hindex⟩ := exists_row hi
    have hvalue : m (.global input i) = x (i / cols * cols + i % cols) :=
      (hm _ (.inl rfl)).trans ((hkept₁ input hinput'.1 hinput'.2 i).trans ((hx i hi).trans
        (congrArg x hindex.symm)))
    have hmean' := (hm _ (.inr ⟨_, .inl rfl, rfl⟩)).trans (hmean _ hrow)
    have hvar' := (hm _ (.inr ⟨_, .inr rfl, rfl⟩)).trans (hvar _ hrow)
    refine (Function.update_self ..).trans ?_
    rw [hvalue, hmean', hvar']
    rfl
  · rw [hkept₂ input i (.inl hne), hkept₁ input hinput'.1 hinput'.2]
  · rw [hkept₂ output o (.inr ho), hkept₁ output houtput'.1 houtput'.2]

/-- The pipeline of RMS norm. -/
theorem leads_rmsNormRows (hwidth : 0 < width) (hgrid : (rows * cols) ⌈/⌉ width ≤ grid)
    (hinput : input ≠ .rowSquares) (houtput : output ≠ .rowSquares) (epsilon gamma : α)
    (hx : ∀ i < rows * cols, memory (.global input i) = x i) :
    RowLaunch.PlanLeads [
        ⟨rows, width, bytes, fun row lane =>
          nnisRmsnormRowSumsqF32 math cols width row lane input .rowSquares⟩,
        ⟨grid, width, bytes₁, fun blockIdx lane =>
          nnisRmsnormNormalizeF32 math cols width blockIdx lane rows input output .rowSquares
            (math.div math.one (math.ofCols cols)) epsilon gamma⟩] memory
      (RowResult input output (rows * cols)
        (rowwise cols (rmsNormRow math width cols epsilon gamma) x) memory) := by
  have hcolumns : output ∉ ({.rowSquares} : Set RowBuffer) := houtput
  refine leads_rowReduction hwidth hinput.symm
    (fun row j => math.mul (x (row * cols + j)) (x (row * cols + j)))
    (fun _ _ => ⟨rfl, fun _ => trivial⟩)
    (fun row hrow i hi m hm => congrArg (fun v => math.mul v v) (hm.trans (hx _ (row_lt hrow hi))))
    fun m₁ htotal hkept₁ => ?_
  refine leads_elementwise hgrid hwidth (rowwise cols (rmsNormRow math width cols epsilon gamma) x)
    (reads_global input {.rowSquares}) (notMem_reads hcolumns)
    (fun i => ⟨.inr ⟨_, rfl, rfl⟩, fun _ => ⟨.inl rfl, fun _ => ⟨rfl, trivial⟩⟩⟩)
    (fun i hi m hm => ?_) fun m₂ hresult hkept₂ => .nil ⟨hresult, fun hne i => ?_, fun o ho => ?_⟩
  · obtain ⟨hrow, -, hindex⟩ := exists_row hi
    have hvalue : m (.global input i) = x (i / cols * cols + i % cols) :=
      (hm _ (.inl rfl)).trans ((hkept₁ input hinput i).trans ((hx i hi).trans
        (congrArg x hindex.symm)))
    have hsquares := (hm _ (.inr ⟨_, rfl, rfl⟩)).trans (htotal _ hrow)
    refine (Function.update_self ..).trans ?_
    rw [hvalue, hsquares]
    rfl
  · rw [hkept₂ input i (.inl hne), hkept₁ input hinput]
  · rw [hkept₂ output o (.inr ho), hkept₁ output houtput]

end Pipelines

end Operators

end NNIS
