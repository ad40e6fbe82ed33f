import NNIS.Kernels.RowWise

/-!
# Blocks of the row-wise kernels

A fused kernel stages its row in shared memory, reduces it once or twice there, and stores the
results; the kernels of the pipelines reduce a row of a buffer or run a body for each element. Under
every schedule a block ends and leaves the same values, and so its effect in a launch is a function
of the cells that it owns.

## Main definitions

* `RowHolds` — the cells of a row hold values, in a memory that has changed nothing else.
* `softmaxRow`, `layerNormRow`, `rmsNormRow` — the results of the three operators.

## Main results

* `softmaxRowFused_effect`, `layernormRowFused_effect`, `rmsnormRowFused_effect`.
* `rowReduction_effect`, `layernormRowStats_effect`, `elementwise_effect`.
-/

set_option autoImplicit false

namespace NNIS

open Block RowThread TreeReduction

variable {α : Type}

/-- The cells of a row hold values. Other cells hold what they held in a memory, apart from the
partials of the reductions. -/
structure RowHolds (cell scratch : ℕ → RowCell) (cols : ℕ) (values : ℕ → α)
    (memory m : RowCell → α) : Prop where
  values : ∀ i < cols, m (cell i) = values i
  kept : ∀ c, (∀ i < cols, c ≠ cell i) → (∀ lane, c ≠ scratch lane) → m c = memory c

/-- A row and partials in separate cells. -/
structure RowLayout (cell scratch : ℕ → RowCell) (cols : ℕ) : Prop where
  cell_injective : ∀ i < cols, ∀ j < cols, cell i = cell j → i = j
  scratch_injective : Function.Injective scratch
  free : ∀ i < cols, ∀ lane, cell i ≠ scratch lane

/-- The footprint of an element: its own cell. -/
def ownCell (cell : ℕ → RowCell) (i : ℕ) : Footprint RowCell := ⟨{cell i}, {cell i}⟩

section Rules

variable {cell scratch : ℕ → RowCell} {cols width : ℕ} {values : ℕ → α} {memory : RowCell → α}
  {β : Type} {b : Block RowCell (fun _ => α) β} {post : Block RowCell (fun _ => α) β → Prop}

private theorem RowLayout.separate (h : RowLayout cell scratch cols) :
    Separate cols (ownCell cell) := by
  rintro i hi j hj hne c rfl
  have hcell : cell i ≠ cell j := fun heq => hne (h.cell_injective i hi j hj heq)
  exact ⟨hcell, hcell⟩

/-- A reduction of a row, each element of which may be replaced. -/
private theorem leads_reduction (hwidth : 0 < width) (hlayout : RowLayout cell scratch cols)
    {element : ℕ → RowThread α α} {elements values' : ℕ → α}
    (hwithin : ∀ i < cols, (element i).Within (ownCell cell i))
    (heval : ∀ i < cols, ∀ m : RowCell → α, m (cell i) = values i →
      ((element i).eval m).1 = elements i ∧ ((element i).eval m).2 (cell i) = values' i)
    {combine : α → α → α} {empty : α} {k : ℕ → RowThread α β}
    (hthread : ∀ t < width, b.thread t =
      Thread.laneFold combine empty width cols t element >>= fun value =>
        Thread.blockReduce combine scratch width t value >>= fun _ => k t)
    (hb : RowHolds cell scratch cols values memory b.memory)
    (h : ∀ b' : Block RowCell (fun _ => α) β, (∀ t < width, b'.thread t = k t) →
      b'.memory (scratch 0) = ofStrided combine empty width cols elements →
      RowHolds cell scratch cols values' memory b'.memory → Leads width b' post) :
    Leads width b post := by
  refine Leads.reduce hwidth hlayout.scratch_injective hwithin hlayout.separate
    (fun i hi lane => ⟨(hlayout.free i hi lane).symm, (hlayout.free i hi lane).symm⟩) hthread
    fun b' hthread' htotal hwritten hkept => h b' hthread' ?_ ⟨fun i hi => ?_, fun c hrow hc => ?_⟩
  · rw [htotal]
    exact ofStrided_congr hwidth fun i hi => (heval i hi _ (hb.values i hi)).1
  · rw [hwritten i hi _ rfl]
    exact (heval i hi _ (hb.values i hi)).2
  · rw [hkept c hc fun i hi => hrow i hi]
    exact hb.kept c hrow hc

/-- All threads read the first partial. -/
private theorem leads_broadcast {k : ℕ → α → RowThread α β}
    (hthread : ∀ t < width, b.thread t =
      load (scratch 0) >>= fun total => Thread.barrier >>= fun _ => k t total)
    (h : ∀ b' : Block RowCell (fun _ => α) β,
      (∀ t < width, b'.thread t = k t (b.memory (scratch 0))) → b'.memory = b.memory →
        Leads width b' post) :
    Leads width b post := by
  refine @Leads.phase _ _ _ _ _ _ _ _ (fun _ => ⟨{scratch 0}, ∅⟩)
    (fun _ => load (scratch 0)) k hthread
    (fun _ _ => Thread.Within.load rfl) (fun _ _ _ _ _ c hc => absurd hc (Set.notMem_empty c))
    fun b' hthread' _ hkept => h b' hthread' (funext fun c => ?_)
  exact hkept c fun _ _ => Set.notMem_empty c

end Rules

/-! ### Results -/

section Results

variable (math : RowMath α) (width cols : ℕ)

/-- The softmax of a row. -/
def softmaxRow (x : ℕ → α) (i : ℕ) : α :=
  let maximum := ofStrided math.fmaxf math.negInf width cols x
  let sum := ofStrided math.add math.zero width cols fun j => math.expf (math.sub (x j) maximum)
  math.div (math.expf (math.sub (x i) maximum)) sum

/-- The mean of a row. -/
def rowMean (x : ℕ → α) : α :=
  math.mul (ofStrided math.add math.zero width cols x) (math.div math.one (math.ofCols cols))

/-- The layer norm of a row. -/
def layerNormRow (epsilon gamma beta : α) (x : ℕ → α) (i : ℕ) : α :=
  let centered := fun j => math.sub (x j) (rowMean math width cols x)
  let total := ofStrided math.add math.zero width cols fun j => math.mul (centered j) (centered j)
  let scale := math.rsqrtf
    (math.add (math.mul total (math.div math.one (math.ofCols cols))) epsilon)
  math.fmaf (math.mul (centered i) scale) gamma beta

/-- The RMS norm of a row. -/
def rmsNormRow (epsilon gamma : α) (x : ℕ → α) (i : ℕ) : α :=
  let total := ofStrided math.add math.zero width cols fun j => math.mul (x j) (x j)
  let scale := math.rsqrtf
    (math.add (math.mul total (math.div math.one (math.ofCols cols))) epsilon)
  math.mul (math.mul (x i) scale) gamma

end Results

/-- A block has ended and stored the results of its row. -/
def RowStored (cols width row : ℕ) (output : RowBuffer) (memory : RowCell → α) (result : ℕ → α)
    (b : Block RowCell (fun _ => α) Unit) : Prop :=
  Finished width b ∧ (∀ i < cols, b.memory (.global output (row * cols + i)) = result i) ∧
    ∀ c ∉ RowCell.sharedMemory, (∀ i < cols, c ≠ .global output (row * cols + i)) →
      b.memory c = memory c

/-- The cells of a row of a buffer. -/
def rowCells (buffer : RowBuffer) (cols row : ℕ) : Set RowCell :=
  {c | ∃ i < cols, c = .global buffer (row * cols + i)}

/-! ### Fused kernels -/

section Fused

variable {cols width row : ℕ} {input output : RowBuffer} {memory : RowCell → α}

/-- The partials of a fused kernel. -/
def fusedScratch (cols lane : ℕ) : RowCell := .shared (cols + lane)

private theorem fusedLayout (cols : ℕ) : RowLayout RowCell.shared (fusedScratch cols) cols where
  cell_injective _ _ _ _ h := RowCell.shared.inj h
  scratch_injective _ _ h := Nat.add_left_cancel (RowCell.shared.inj h)
  free i hi lane h := by
    have heq := RowCell.shared.inj h
    omega

/-- A row is staged. -/
private theorem leads_stageRow {β : Type} {b : Block RowCell (fun _ => α) β}
    {post : Block RowCell (fun _ => α) β → Prop} (hwidth : 0 < width) {x : ℕ → α}
    (hx : ∀ i < cols, b.memory (.global input (row * cols + i)) = x i) {k : ℕ → RowThread α β}
    (hthread : ∀ t < width, b.thread t =
      stageRow cols width row t input >>= fun _ => Thread.barrier >>= fun _ => k t)
    (h : ∀ b' : Block RowCell (fun _ => α) β, (∀ t < width, b'.thread t = k t) →
      RowHolds RowCell.shared (fusedScratch cols) cols x b.memory b'.memory →
      Leads width b' post) :
    Leads width b post := by
  let f (i : ℕ) : Footprint RowCell := ⟨{.global input (row * cols + i)}, {.shared i}⟩
  have hseparate : Separate cols f := by
    rintro i - j - hne c rfl
    exact ⟨nofun, fun heq => hne (RowCell.shared.inj heq)⟩
  have hwithin (i : ℕ) (_ : i < cols) : (do
      let value ← load (.global input (row * cols + i))
      store (.shared i) value : RowThread α Unit).Within (f i) := ⟨rfl, fun _ => ⟨rfl, trivial⟩⟩
  refine Leads.forEach hwidth hwithin hseparate hthread
    fun b' hthread' hwritten hkept => h b' hthread' ⟨fun i hi => ?_, fun c hrow _ => ?_⟩
  · rw [hwritten i hi _ rfl, ← hx i hi]
    exact Function.update_self ..
  · exact hkept c fun i hi => hrow i hi

/-- A reduction of the staged row whose result all threads read. -/
private theorem leads_fusedReduction {β : Type} {b : Block RowCell (fun _ => α) β}
    {post : Block RowCell (fun _ => α) β → Prop} (hwidth : 0 < width) {values : ℕ → α}
    (elements values' : ℕ → α) {element : ℕ → RowThread α α} {combine : α → α → α} {empty : α}
    {k : ℕ → α → RowThread α β}
    (hthread : ∀ t < width, b.thread t =
      fusedReduction cols width t combine empty element >>= fun total => k t total)
    (hb : RowHolds RowCell.shared (fusedScratch cols) cols values memory b.memory)
    (hwithin : ∀ i < cols, (element i).Within (ownCell RowCell.shared i))
    (heval : ∀ i < cols, ∀ m : RowCell → α, m (.shared i) = values i →
      ((element i).eval m).1 = elements i ∧ ((element i).eval m).2 (.shared i) = values' i)
    (h : ∀ b' : Block RowCell (fun _ => α) β,
      (∀ t < width, b'.thread t = k t (ofStrided combine empty width cols elements)) →
      RowHolds RowCell.shared (fusedScratch cols) cols values' memory b'.memory →
        Leads width b' post) :
    Leads width b post := by
  have hparts (t : ℕ) (ht : t < width) : b.thread t =
      Thread.laneFold combine empty width cols t element >>= fun value =>
        Thread.blockReduce combine (fusedScratch cols) width t value >>= fun _ =>
          load (fusedScratch cols 0) >>= fun total => Thread.barrier >>= fun _ => k t total := by
    rw [hthread t ht, fusedReduction]
    simp only [Thread.bind_assoc]
    rfl
  refine leads_reduction hwidth (fusedLayout cols) hwithin heval hparts hb
    fun b₁ hthread₁ htotal hb₁ => leads_broadcast hthread₁ fun b₂ hthread₂ hmemory => ?_
  refine h b₂ (fun t ht => ?_) (hmemory ▸ hb₁)
  rw [hthread₂ t ht, htotal]

/-- The results of a row are stored. -/
private theorem leads_storeRow {b : Block RowCell (fun _ => α) Unit} (hwidth : 0 < width)
    {values : ℕ → α} {result : α → α}
    (hthread : ∀ t < width, b.thread t = storeRow cols width row t output result)
    (hb : RowHolds RowCell.shared (fusedScratch cols) cols values memory b.memory) :
    Leads width b (RowStored cols width row output memory fun i => result (values i)) := by
  let f (i : ℕ) : Footprint RowCell := ⟨{.shared i}, {.global output (row * cols + i)}⟩
  have hseparate : Separate cols f := by
    rintro i - j - hne c rfl
    exact ⟨nofun, fun heq => hne (Nat.add_left_cancel (RowCell.global.inj heq).2)⟩
  have hwithin (i : ℕ) (_ : i < cols) : (do
      let value ← load (.shared i)
      store (.global output (row * cols + i)) (result value) : RowThread α Unit).Within (f i) :=
    ⟨rfl, fun _ => ⟨rfl, trivial⟩⟩
  refine Leads.finish_forEach hwidth hwithin hseparate hthread
    fun b' hfinished hwritten hkept => ⟨hfinished, fun i hi => ?_, fun c hc hrow => ?_⟩
  · rw [hwritten i hi _ rfl]
    exact (Function.update_self ..).trans (congrArg result (hb.values i hi))
  · rw [hkept c fun i hi => hrow i hi]
    exact hb.kept c (fun i _ heq => hc ⟨i, heq⟩) fun lane heq => hc ⟨cols + lane, heq⟩

variable {math : RowMath α} {x : ℕ → α} {start : RowCell → α}

private theorem leads_softmaxRowFused (hwidth : 0 < width)
    (hx : ∀ i < cols, start (.global input (row * cols + i)) = x i) :
    Leads width ⟨fun lane => nnisSoftmaxRowFusedF32 math cols width row lane input output, start⟩
      (RowStored cols width row output start (softmaxRow math width cols x)) := by
  refine leads_stageRow hwidth hx (fun _ _ => rfl) fun b₁ hthread₁ hb₁ => ?_
  refine leads_fusedReduction hwidth x x hthread₁ hb₁ (fun _ _ => Thread.Within.load rfl)
    (fun i _ m hm => ⟨hm, hm⟩) fun b₂ hthread₂ hb₂ => ?_
  let exponential (j : ℕ) : α :=
    math.expf (math.sub (x j) (ofStrided math.fmaxf math.negInf width cols x))
  refine leads_fusedReduction hwidth exponential exponential hthread₂ hb₂
    (fun _ _ => ⟨rfl, fun _ => ⟨rfl, trivial⟩⟩) (fun i _ m hm => ⟨?_, ?_⟩)
    fun b₃ hthread₃ hb₃ => ?_
  · exact congrArg (fun v => math.expf (math.sub v _)) hm
  · exact (Function.update_self ..).trans (congrArg (fun v => math.expf (math.sub v _)) hm)
  · exact leads_storeRow hwidth hthread₃ hb₃

private theorem leads_layernormRowFused (hwidth : 0 < width) (epsilon gamma beta : α)
    (hx : ∀ i < cols, start (.global input (row * cols + i)) = x i) :
    Leads width ⟨fun lane => nnisLayernormRowFusedF32 math cols width row lane input output
        (math.div math.one (math.ofCols cols)) epsilon gamma beta, start⟩
      (RowStored cols width row output start
        (layerNormRow math width cols epsilon gamma beta x)) := by
  refine leads_stageRow hwidth hx (fun _ _ => rfl) fun b₁ hthread₁ hb₁ => ?_
  refine leads_fusedReduction hwidth x x hthread₁ hb₁ (fun _ _ => Thread.Within.load rfl)
    (fun i _ m hm => ⟨hm, hm⟩) fun b₂ hthread₂ hb₂ => ?_
  let centered (j : ℕ) : α := math.sub (x j) (rowMean math width cols x)
  refine leads_fusedReduction hwidth (fun j => math.mul (centered j) (centered j)) centered hthread₂
    hb₂ (fun _ _ => ⟨rfl, fun _ => ⟨rfl, trivial⟩⟩) (fun i _ m hm => ⟨?_, ?_⟩)
    fun b₃ hthread₃ hb₃ => ?_
  · exact congrArg (fun v => math.mul (math.sub v _) (math.sub v _)) hm
  · exact (Function.update_self ..).trans (congrArg (fun v => math.sub v _) hm)
  · exact leads_storeRow hwidth hthread₃ hb₃

private theorem leads_rmsnormRowFused (hwidth : 0 < width) (epsilon gamma : α)
    (hx : ∀ i < cols, start (.global input (row * cols + i)) = x i) :
    Leads width ⟨fun lane => nnisRmsnormRowFusedF32 math cols width row lane input output
        (math.div math.one (math.ofCols cols)) epsilon gamma, start⟩
      (RowStored cols width row output start (rmsNormRow math width cols epsilon gamma x)) := by
  refine leads_stageRow hwidth hx (fun _ _ => rfl) fun b₁ hthread₁ hb₁ => ?_
  refine leads_fusedReduction hwidth (fun j => math.mul (x j) (x j)) x hthread₁ hb₁
    (fun _ _ => ⟨rfl, fun _ => trivial⟩)
    (fun i _ m hm => ⟨congrArg (fun v => math.mul v v) hm, hm⟩) fun b₂ hthread₂ hb₂ => ?_
  exact leads_storeRow hwidth hthread₂ hb₂

/-- The effect of a block that stores the results of its row. -/
private theorem rowStored_effect {thread : ℕ → RowThread α Unit} {memory value : RowCell → α}
    {result : ℕ → α}
    (h : ∀ start : RowCell → α, (∀ i < cols, start (.global input (row * cols + i)) =
      memory (.global input (row * cols + i))) →
        Leads width ⟨thread, start⟩ (RowStored cols width row output start result))
    (hvalue : ∀ i < cols, value (.global output (row * cols + i)) = result i) :
    BlockEffect RowCell.sharedMemory (rowCells input cols row) width thread
      (rowCells output cols row) memory value := by
  refine BlockEffect.of_leads (fun c ⟨i, _, hc⟩ ⟨j, hj⟩ => nomatch hc.symm.trans hj)
    fun start hstart schedule hschedule => ?_
  obtain ⟨n, hfinished, hstored, hkept⟩ := h start (fun i hi => hstart _ ⟨i, hi, rfl⟩) schedule
    hschedule
  refine ⟨n, hfinished, ?_, fun c hc hnone => hkept c hc fun i hi heq => hnone ⟨i, hi, heq⟩⟩
  rintro c ⟨i, hi, rfl⟩
  exact (hstored i hi).trans (hvalue i hi).symm

section Effects

variable {value : RowCell → α} (math) (hwidth : 0 < width)
  (hx : ∀ i < cols, memory (.global input (row * cols + i)) = x i)

include hwidth hx

/-- The fused row softmax leaves the softmax of its row. -/
theorem softmaxRowFused_effect
    (hvalue : ∀ i < cols,
      value (.global output (row * cols + i)) = softmaxRow math width cols x i) :
    BlockEffect RowCell.sharedMemory (rowCells input cols row) width
      (fun lane => nnisSoftmaxRowFusedF32 math cols width row lane input output)
      (rowCells output cols row) memory value :=
  rowStored_effect (fun _ hstart => leads_softmaxRowFused hwidth fun i hi =>
    (hstart i hi).trans (hx i hi)) hvalue

/-- The fused layer norm leaves that of its row. -/
theorem layernormRowFused_effect (epsilon gamma beta : α)
    (hvalue : ∀ i < cols, value (.global output (row * cols + i)) =
      layerNormRow math width cols epsilon gamma beta x i) :
    BlockEffect RowCell.sharedMemory (rowCells input cols row) width
      (fun lane => nnisLayernormRowFusedF32 math cols width row lane input output
        (math.div math.one (math.ofCols cols)) epsilon gamma beta)
      (rowCells output cols row) memory value :=
  rowStored_effect (fun _ hstart => leads_layernormRowFused hwidth epsilon gamma beta fun i hi =>
    (hstart i hi).trans (hx i hi)) hvalue

/-- The fused RMS norm leaves that of its row. -/
theorem rmsnormRowFused_effect (epsilon gamma : α)
    (hvalue : ∀ i < cols, value (.global output (row * cols + i)) =
      rmsNormRow math width cols epsilon gamma x i) :
    BlockEffect RowCell.sharedMemory (rowCells input cols row) width
      (fun lane => nnisRmsnormRowFusedF32 math cols width row lane input output
        (math.div math.one (math.ofCols cols)) epsilon gamma)
      (rowCells output cols row) memory value :=
  rowStored_effect (fun _ hstart => leads_rmsnormRowFused hwidth epsilon gamma fun i hi =>
    (hstart i hi).trans (hx i hi)) hvalue

end Effects

end Fused

/-! ### Kernels of the pipelines -/

section Staged

variable {cols width row : ℕ} {input output : RowBuffer}

/-- The first thread publishes. -/
private theorem leads_publish {b : Block RowCell (fun _ => α) Unit}
    {post : Block RowCell (fun _ => α) Unit → Prop} (hwidth : 0 < width) {p : RowThread α Unit}
    (written : Set RowCell) (hwritten : ∀ c ∈ written, c ∉ RowCell.sharedMemory)
    (hthread : ∀ t < width, b.thread t = if t = 0 then p else pure ())
    (hwithin : p.Within ⟨{.shared 0}, written⟩)
    (h : ∀ b' : Block RowCell (fun _ => α) Unit, Finished width b' →
      (∀ c ∈ written, b'.memory c = (p.eval b.memory).2 c) →
      (∀ c ∉ written, b'.memory c = b.memory c) → post b') :
    Leads width b post := by
  let f (t : ℕ) : Footprint RowCell := ⟨{.shared 0}, {c | t = 0 ∧ c ∈ written}⟩
  have hpart (t : ℕ) (_ : t < width) : (if t = 0 then p else pure ()).Within (f t) :=
    Thread.Within.ite (fun ht => hwithin.mono (fun _ hc => hc) fun _ hc => ⟨ht, hc⟩)
    fun _ => trivial
  have hseparate : Separate width f := by
    rintro t - u - hne c ⟨rfl, hc⟩
    refine ⟨fun heq => hwritten c hc ⟨0, heq⟩, fun ⟨hu, _⟩ => hne hu.symm⟩
  refine Leads.finish hthread hpart hseparate fun b' hfinished hcells hkept =>
    h b' hfinished (fun c hc => ?_) fun c hc => hkept c fun t _ ⟨_, hmem⟩ => hc hmem
  rw [hcells 0 hwidth c ⟨rfl, hc⟩, if_pos rfl]

/-- The layout of a kernel that reads its row from a buffer. -/
private theorem stagedLayout (input : RowBuffer) (cols row : ℕ) :
    RowLayout (fun i => .global input (row * cols + i)) RowCell.shared cols where
  cell_injective _ _ _ _ h := Nat.add_left_cancel (RowCell.global.inj h).2
  scratch_injective _ _ h := RowCell.shared.inj h
  free _ _ _ := nofun

/-- A reduction of a row of a buffer. -/
private theorem leads_stagedReduction {β : Type} {b : Block RowCell (fun _ => α) β}
    {post : Block RowCell (fun _ => α) β → Prop} (hwidth : 0 < width) {x : ℕ → α}
    (elements : ℕ → α) {element : ℕ → RowThread α α} {combine : α → α → α} {empty : α}
    {k : ℕ → RowThread α β} {memory : RowCell → α}
    (hthread : ∀ t < width, b.thread t =
      Thread.laneFold combine empty width cols t element >>= fun value =>
        Thread.blockReduce combine .shared width t value >>= fun _ => k t)
    (hb : RowHolds (fun i => .global input (row * cols + i)) .shared cols x memory b.memory)
    (hwithin : ∀ i < cols, (element i).Within ⟨{.global input (row * cols + i)}, ∅⟩)
    (heval : ∀ i < cols, ∀ m : RowCell → α, m (.global input (row * cols + i)) = x i →
      ((element i).eval m).1 = elements i)
    (h : ∀ b' : Block RowCell (fun _ => α) β, (∀ t < width, b'.thread t = k t) →
      b'.memory (.shared 0) = ofStrided combine empty width cols elements →
      RowHolds (fun i => .global input (row * cols + i)) .shared cols x memory b'.memory →
        Leads width b' post) :
    Leads width b post := by
  refine leads_reduction hwidth (stagedLayout input cols row)
    (fun i hi => (hwithin i hi).mono (fun _ hc => hc) fun c hc => absurd hc (Set.notMem_empty c))
    (fun i hi m hm => ⟨heval i hi m hm, ?_⟩) hthread hb h
  rw [(hwithin i hi).eval_frame m (Set.notMem_empty _)]
  exact hm

/-- Global cells of a memory hold what those of another one do. -/
private theorem RowHolds.refl {x : ℕ → α} {start : RowCell → α}
    (hx : ∀ i < cols, start (.global input (row * cols + i)) = x i) :
    RowHolds (fun i => .global input (row * cols + i)) .shared cols x start start :=
  ⟨hx, fun _ _ _ => rfl⟩

private theorem RowHolds.global {x : ℕ → α} {start m : RowCell → α}
    (h : RowHolds (fun i => .global input (row * cols + i)) .shared cols x start m)
    (hx : ∀ i < cols, start (.global input (row * cols + i)) = x i) {c : RowCell}
    (hc : c ∉ RowCell.sharedMemory) : m c = start c := by
  by_cases hrow : ∃ i < cols, c = .global input (row * cols + i)
  · obtain ⟨i, hi, rfl⟩ := hrow
    exact (h.values i hi).trans (hx i hi).symm
  · exact h.kept c (fun i hi heq => hrow ⟨i, hi, heq⟩) fun lane heq => hc ⟨lane, heq⟩

/-- A row reduction leaves the reduction of its row in the column. -/
theorem rowReduction_effect (hwidth : 0 < width) {element : ℕ → RowThread α α}
    {combine : α → α → α} {empty : α} {memory value : RowCell → α} (elements : ℕ → α)
    (hwithin : ∀ i < cols, (element i).Within ⟨{.global input (row * cols + i)}, ∅⟩)
    (heval : ∀ i < cols, ∀ m : RowCell → α,
      m (.global input (row * cols + i)) = memory (.global input (row * cols + i)) →
        ((element i).eval m).1 = elements i)
    (hvalue : value (.global output row) = ofStrided combine empty width cols elements) :
    BlockEffect RowCell.sharedMemory (rowCells input cols row) width
      (fun lane => rowReduction cols width row lane combine empty element output)
      {.global output row} memory value := by
  refine BlockEffect.of_leads (by rintro c rfl ⟨i, hi⟩; cases hi) fun start hstart => ?_
  have hx : ∀ i < cols, start (.global input (row * cols + i)) =
      memory (.global input (row * cols + i)) := fun i hi => hstart _ ⟨i, hi, rfl⟩
  refine leads_stagedReduction hwidth elements (fun _ _ => rfl) (RowHolds.refl hx) hwithin heval
    fun b₁ hthread₁ htotal hb₁ => leads_publish hwidth {.global output row}
      (by rintro c rfl ⟨i, hi⟩; cases hi) hthread₁
      ⟨Set.mem_singleton _, fun _ => ⟨Set.mem_singleton _, trivial⟩⟩
      fun b₂ hfinished hcells hkept => ⟨hfinished, ?_, fun c hc hne => ?_⟩
  · rintro c rfl
    rw [hcells _ rfl, hvalue, ← htotal]
    exact Function.update_self ..
  · rw [hkept c hne]
    exact hb₁.global hx hc

/-- The statistics of a row are left in their columns. -/
theorem layernormRowStats_effect (hwidth : 0 < width) (hcols : 0 < cols) (math : RowMath α)
    {meanColumn varColumn : RowBuffer} (hne : meanColumn ≠ varColumn) {memory value : RowCell → α}
    {x : ℕ → α} (hx : ∀ i < cols, memory (.global input (row * cols + i)) = x i)
    (hmean : value (.global meanColumn row) = rowMean math width cols x)
    (hvar : value (.global varColumn row) = ofStrided math.add math.zero width cols fun j =>
      math.mul (math.sub (x j) (rowMean math width cols x))
        (math.sub (x j) (rowMean math width cols x))) :
    BlockEffect RowCell.sharedMemory (rowCells input cols row) width
      (fun lane => nnisLayernormRowStatsF32 math cols width row lane input meanColumn varColumn)
      {.global meanColumn row, .global varColumn row} memory value := by
  have hglobal : ∀ c ∈ ({.global meanColumn row, .global varColumn row} : Set RowCell),
      c ∉ RowCell.sharedMemory := by
    rintro c (rfl | rfl) ⟨i, hi⟩ <;> cases hi
  refine BlockEffect.of_leads hglobal fun start hstart => ?_
  have hx : ∀ i < cols, start (.global input (row * cols + i)) = x i := fun i hi =>
    (hstart _ ⟨i, hi, rfl⟩).trans (hx i hi)
  refine leads_stagedReduction hwidth x (fun _ _ => rfl) (RowHolds.refl hx)
    (fun _ _ => Thread.Within.load rfl) (fun i _ m hm => hm) fun b₁ hthread₁ htotal hb₁ => ?_
  refine leads_broadcast hthread₁ fun b₂ hthread₂ hmemory => ?_
  have hmean' : math.div (b₁.memory (.shared 0)) (math.ofCols cols) =
      rowMean math width cols x := by
    rw [htotal, math.div_ofCols _ _ hcols, rowMean]
  rw [hmean'] at hthread₂
  refine leads_stagedReduction hwidth _ hthread₂ (hmemory ▸ hb₁)
    (fun _ _ => ⟨rfl, fun _ => trivial⟩)
    (fun i _ m hm => congrArg (fun v => math.mul (math.sub v _) (math.sub v _)) hm)
    fun b₃ hthread₃ htotal₃ hb₃ => leads_publish hwidth _ hglobal hthread₃
      ⟨.inl rfl, ⟨rfl, fun _ => ⟨.inr rfl, trivial⟩⟩⟩
      fun b₄ hfinished hcells hkept => ⟨hfinished, ?_, fun c hc hnone => ?_⟩
  · rintro c (rfl | rfl)
    · rw [hcells _ (.inl rfl), hmean]
      have hcell : RowCell.global meanColumn row ≠ .global varColumn row :=
        fun heq => hne (RowCell.global.inj heq).1
      exact (Function.update_of_ne hcell ..).trans (Function.update_self ..)
    · rw [hcells _ (.inr rfl), hvar, ← htotal₃]
      exact Function.update_self ..
  · rw [hkept c hnone]
    exact hb₃.global hx hc

end Staged

/-! ### Flat grids -/

section Elementwise

variable {count width blockIdx : ℕ} {f : ℕ → Footprint RowCell}

/-- The cells that the elements of a block read. -/
def elementReads (f : ℕ → Footprint RowCell) (count width blockIdx : ℕ) : Set RowCell :=
  {c | ∃ lane < width, blockIdx * width + lane < count ∧ c ∈ (f (blockIdx * width + lane)).reads}

/-- The cells that the elements of a block write. -/
def elementWrites (f : ℕ → Footprint RowCell) (count width blockIdx : ℕ) : Set RowCell :=
  {c | ∃ lane < width, blockIdx * width + lane < count ∧ c ∈ (f (blockIdx * width + lane)).writes}

/-- A block leaves what the bodies of its elements leave. -/
theorem elementwise_effect {body : ℕ → RowThread α Unit} {memory value : RowCell → α}
    (hwithin : ∀ i < count, (body i).Within (f i)) (hseparate : Separate count f)
    (hglobal : ∀ i < count, ∀ c ∈ (f i).writes, c ∉ RowCell.sharedMemory)
    (heval : ∀ i < count, ∀ m : RowCell → α, (∀ c ∈ (f i).reads, m c = memory c) →
      ∀ c ∈ (f i).writes, ((body i).eval m).2 c = value c) :
    BlockEffect RowCell.sharedMemory (elementReads f count width blockIdx) width
      (fun lane => elementwise width blockIdx lane count body)
      (elementWrites f count width blockIdx) memory value := by
  refine BlockEffect.of_leads (fun c ⟨lane, _, hlt, hc⟩ => hglobal _ hlt c hc)
    fun start hstart => ?_
  let g (lane : ℕ) : Footprint RowCell :=
    ⟨{c | blockIdx * width + lane < count ∧ c ∈ (f (blockIdx * width + lane)).reads},
      {c | blockIdx * width + lane < count ∧ c ∈ (f (blockIdx * width + lane)).writes}⟩
  have hpart (lane : ℕ) (_ : lane < width) :
      (elementwise width blockIdx lane count body).Within (g lane) :=
    Thread.Within.ite (fun hlt =>
      (hwithin _ hlt).mono (fun _ hc => ⟨hlt, hc⟩) fun _ hc => ⟨hlt, hc⟩)
      fun _ => trivial
  have hg : Separate width g := by
    rintro t - u - hne c ⟨ht, hc⟩
    have hindex : blockIdx * width + t ≠ blockIdx * width + u := fun heq =>
      hne (Nat.add_left_cancel heq)
    exact ⟨fun ⟨hu, hc'⟩ => (hseparate _ ht _ hu hindex c hc).1 hc',
      fun ⟨hu, hc'⟩ => (hseparate _ ht _ hu hindex c hc).2 hc'⟩
  refine Leads.finish (fun _ _ => rfl) hpart hg fun b hfinished hwritten hkept =>
    ⟨hfinished, ?_, fun c _ hnone => hkept c fun t ht ⟨hlt, hc⟩ => hnone ⟨t, ht, hlt, hc⟩⟩
  rintro c ⟨lane, hlane, hlt, hc⟩
  have hbody : elementwise width blockIdx lane count body = body (blockIdx * width + lane) :=
    if_pos hlt
  rw [hwritten lane hlane c ⟨hlt, hc⟩]
  change ((elementwise width blockIdx lane count body).eval start).2 c = value c
  rw [hbody]
  exact heval _ hlt start (fun c' hc' => hstart c' ⟨lane, hlane, hlt, hc'⟩) c hc

end Elementwise

end NNIS
