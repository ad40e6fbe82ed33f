import NNIS.Cpu.GraphExecution
import NNIS.Cpu.SessionRuns

/-!
# Logits by way of a graph

`CpuPortableSession::logits_via_f32_graph` projects the running sum and a row through the executor
of graphs, under limits of its own. For the models whose weights, operand and result fit the limits
it gives the logits that staging the token of the row publishes, and all other models are refused.

## Main definitions

* `CpuPortableSession.logitsViaF32Graph`, `CpuPortableSession.projectionPlan`.
* `CpuPortableSession.GraphFits` — the models that fit.
* `CpuPortableSession.GraphFailure` — what may go wrong.

## Main results

* `CpuPortableSession.validateBudget_projectionPlan_cases` — what the limits admit.
* `CpuPortableSession.graph_agrees` — the graph and the kernels give the same logits.
-/

set_option autoImplicit false

namespace NNIS

namespace CpuPortableSession

open Outcome CpuF32 CpuGraph SyntheticPortableModelSpecV1

/-! ### The code -/

/-- The running sum with a value of a row added at its place. -/
def addPending (context : List F32) (entry : (F32 × F32) × ℕ) :
    Outcome PortableSessionError (List F32) := do
  let sum := entry.1.1.add entry.1.2
  require (sum.isFinite = true) (.invalid "context sum became non-finite")
  pure (context.set entry.2 sum)

/-- The plan of the projection. -/
def projectionPlan (hidden vocab : ℕ) : F32GraphV1 where
  schemaVersion := f32GraphVersion
  numericalPolicy := f32GraphPolicy
  inputs := [.vector hidden, .matrix hidden vocab]
  nodes := [⟨.projectKn 0 1, .vector vocab⟩]
  length_lt := (by decide : 2 + 1 < wordLimit)

/-- The limits that the projection is admitted under. -/
def projectionLimits : F32GraphLimitsV1 where
  maxInputs := 8
  maxNodes := 8
  maxTensorBytes := 4096
  maxLivePayloadBytes := 4096
  maxScratchBytes := 4096
  maxWorkItems := 1000000
  maxTensorBytes_lt := by decide
  maxLivePayloadBytes_lt := by decide
  maxWorkItems_lt := by decide

/-- Execute a graph on some buffers. -/
def executeOn (handleBytes : ℕ) (device : CpuDevice) (graph : ValidatedF32GraphV1)
    (inputs : List CpuBuffer) : HostM CpuF32GraphOutputV1 :=
  ⟨fun host =>
    let result := (executeF32Graph handleBytes device graph).run ⟨host, inputs, []⟩
    (result.1, result.2.host)⟩

/-- Project the running sum and a pending row through the executor of graphs. -/
def logitsViaF32Graph (handleBytes : ℕ) (s : CpuPortableSession) (pendingRow : List F32) :
    SessionHostM (List F32) := do
  .ofExcept (require (pendingRow.length = s.spec.hiddenSize)
    (.invalid "pending row width mismatch for graph projection"))
  let context ← .ofExcept ((s.runningSum.zip pendingRow).zipIdx.foldlM addPending s.runningSum)
  let contextBuf ← tensor s.device context
  let validated ← portable (.ofExcept
    ((projectionPlan s.spec.hiddenSize s.spec.vocabSize).validate projectionLimits))
  let out ← portable (executeOn handleBytes s.device validated [contextBuf, s.lmHead])
  readF32 out.output

/-! ### What the limits admit -/

/-- The weights, the operand and the result fit the limits, the result twice for the scratch
memory. -/
def GraphFits (hidden vocab : ℕ) : Prop := hidden + hidden * vocab + 2 * vocab ≤ 1024

instance (hidden vocab : ℕ) : Decidable (GraphFits hidden vocab) :=
  inferInstanceAs (Decidable (_ ≤ _))

/-- The refusal of a projection that does not fit. -/
def graphRefusal (hidden vocab : ℕ) : PortableError :=
  if 1024 < hidden * vocab then Graph.invalid "graph tensor exceeds per-buffer limit"
  else Graph.invalid "graph exceeds live payload admission limit"

section Plan

variable {hidden vocab : ℕ}

theorem tensorBytes_of_le {shape : F32ShapeV1} (hpos : 0 < shape.size) (hle : shape.size ≤ 1024) :
    Graph.tensorBytes shape 4096 = .ok shape.payload :=
  (Graph.tensorBytes_eq_ok_iff (by decide)).2 ⟨hpos, rfl, Nat.mul_le_mul_right 4 hle⟩

theorem tensorBytes_of_lt {shape : F32ShapeV1} (hlt : 1024 < shape.size)
    (hword : shape.payload < wordLimit) :
    Graph.tensorBytes shape 4096 =
      raise (Graph.invalid "graph tensor exceeds per-buffer limit") := by
  have hbytes : shape.bytes = .ok shape.payload :=
    F32ShapeV1.bytes_eq_ok_iff.2 ⟨Nat.zero_lt_of_lt hlt, rfl, hword⟩
  have hnot : ¬ shape.payload ≤ 4096 := by
    rw [F32ShapeV1.payload]
    omega
  rw [Graph.tensorBytes, hbytes, Except.ok_bind, require_of_not _ hnot]
  rfl

private theorem visitInput_of_le {budget : F32GraphBudgetV1} {shape : F32ShapeV1}
    (hpos : 0 < shape.size) (hle : shape.size ≤ 1024)
    (hbytes : budget.inputPayloadBytes + shape.payload < wordLimit)
    (hwork : budget.workItems + shape.size < wordLimit) :
    F32GraphV1.visitInput projectionLimits budget shape = .ok
      { budget with
        inputPayloadBytes := budget.inputPayloadBytes + shape.payload
        workItems := budget.workItems + shape.size } := by
  have helements : shape.elements = .ok shape.size :=
    F32ShapeV1.elements_of_lt hpos (hle.trans_lt (by decide))
  rw [F32GraphV1.visitInput]
  change (Graph.tensorBytes shape 4096 >>= _) = _
  rw [tensorBytes_of_le hpos hle, Except.ok_bind, Graph.add_of_lt hbytes, Except.ok_bind, helements,
    Except.ok_bind, Graph.add_of_lt hwork]
  rfl

/-- The checks of a projection whose operand is not too large. -/
theorem validateBudget_eq (hhidden : 0 < hidden ∧ hidden ≤ 1024) :
    (projectionPlan hidden vocab).validateBudget projectionLimits =
      (do
        let budget ← F32GraphV1.visitInput projectionLimits
          ⟨0 + hidden * 4, 0, 0, 0, 0 + hidden⟩ (.matrix hidden vocab)
        Graph.checkWork budget.workItems projectionLimits.maxWorkItems
        (projectionPlan hidden vocab).visitNode projectionLimits budget
          (⟨.projectKn 0 1, .vector vocab⟩, 0)) := by
  have hword : wordLimit = 2 ^ 64 := rfl
  have hrow : F32GraphV1.visitInput projectionLimits ⟨0, 0, 0, 0, 0⟩ (.vector hidden) =
      .ok ⟨0 + hidden * 4, 0, 0, 0, 0 + hidden⟩ :=
    visitInput_of_le (by exact hhidden.1) hhidden.2 (by change 0 + hidden * 4 < _; omega)
      (by change 0 + hidden < _; omega)
  have hcount : checkedAdd (projectionPlan hidden vocab).inputs.length
      (projectionPlan hidden vocab).nodes.length = some _ :=
    checkedAdd_of_lt (projectionPlan hidden vocab).length_lt
  rw [F32GraphV1.validateBudget, require_of _ ⟨rfl, rfl⟩, Except.ok_bind, require_of _ (by decide),
    Except.ok_bind, require_of _ (by simp [projectionPlan, projectionLimits]),
    Except.ok_bind, hcount]
  simp only [okOr, Except.ok_bind, projectionPlan, List.foldlM_cons, List.foldlM_nil,
    hrow, bind_pure, List.zipIdx_cons, List.zipIdx_nil]

/-- The limits admit a projection that fits, and refuse every other one. -/
theorem validateBudget_projectionPlan_cases (hhidden : 0 < hidden ∧ hidden ≤ 1024)
    (hvocab : 0 < vocab ∧ vocab ≤ 1024) :
    (GraphFits hidden vocab ∧ ∃ budget,
        (projectionPlan hidden vocab).validateBudget projectionLimits = .ok budget) ∨
      ¬ GraphFits hidden vocab ∧
        (projectionPlan hidden vocab).validateBudget projectionLimits =
          raise (graphRefusal hidden vocab) := by
  rw [validateBudget_eq hhidden, graphRefusal, GraphFits]
  have hproduct : 0 < hidden * vocab := Nat.mul_pos hhidden.1 hvocab.1
  have hproduct' : hidden * vocab ≤ 1024 * 1024 := Nat.mul_le_mul hhidden.2 hvocab.2
  have hword : wordLimit = 2 ^ 64 := rfl
  rcases Nat.lt_or_ge 1024 (hidden * vocab) with hlarge | hsmall
  · refine .inr ⟨by omega, ?_⟩
    rw [F32GraphV1.visitInput]
    change ((Graph.tensorBytes (.matrix hidden vocab) 4096 >>= _) >>= _) = _
    rw [tensorBytes_of_lt (by exact hlarge) (by change hidden * vocab * 4 < _; omega),
      if_pos hlarge]
    rfl
  have hmatrix : F32GraphV1.visitInput projectionLimits ⟨0 + hidden * 4, 0, 0, 0, 0 + hidden⟩
      (.matrix hidden vocab) =
        .ok ⟨0 + hidden * 4 + hidden * vocab * 4, 0, 0, 0, 0 + hidden + hidden * vocab⟩ :=
    visitInput_of_le (by exact hproduct) hsmall
      (by change 0 + hidden * 4 + hidden * vocab * 4 < _; omega)
      (by change 0 + hidden + hidden * vocab < _; omega)
  have hwork : Graph.checkWork (0 + hidden + hidden * vocab) projectionLimits.maxWorkItems =
      .ok ⟨⟩ := require_of _ (by change 0 + hidden + hidden * vocab ≤ 1000000; omega)
  have hinfer : (projectionPlan hidden vocab).infer (.projectKn 0 1) 0 =
      .ok (.vector vocab, hidden + hidden * vocab * 2 + vocab, [], 0) := by
    have hinput : (projectionPlan hidden vocab).shapeBefore 0 0 = .ok (.vector hidden) := rfl
    have hweights : (projectionPlan hidden vocab).shapeBefore 1 0 =
        .ok (.matrix hidden vocab) := rfl
    have hvector : (F32ShapeV1.vector hidden).vectorCount = .ok hidden := rfl
    simp only [F32GraphV1.infer, hinput, hweights, hvector, Except.ok_bind]
    rw [Graph.mul_of_lt (by omega), Except.ok_bind, Graph.mul_of_lt (by omega), Except.ok_bind,
      Graph.add_of_lt (by omega), Except.ok_bind, Graph.add_of_lt (by omega), Except.ok_bind]
    rfl
  have hbytes : Graph.tensorBytes (.vector vocab) projectionLimits.maxTensorBytes =
      .ok (vocab * 4) := tensorBytes_of_le (by exact hvocab.1) hvocab.2
  have hscratch : vocab * 4 ≤ projectionLimits.maxScratchBytes := by
    change vocab * 4 ≤ 4096
    omega
  have htotal : 0 + hidden + hidden * vocab + (hidden + hidden * vocab * 2 + vocab + 0) ≤
      projectionLimits.maxWorkItems := by
    change _ ≤ 1000000
    omega
  have hlive : (0 + hidden * 4 + hidden * vocab * 4) + (0 + vocab * 4) + max 0 (vocab * 4) ≤
      projectionLimits.maxLivePayloadBytes ↔ hidden + hidden * vocab + 2 * vocab ≤ 1024 := by
    change _ ≤ 4096 ↔ _
    omega
  rw [hmatrix, Except.ok_bind, hwork, Except.ok_bind, F32GraphV1.visitNode]
  dsimp only
  rw [hbytes, Except.ok_bind, require_of _ hscratch, Except.ok_bind, Graph.add_of_lt (by omega),
    Except.ok_bind, hinfer, Except.ok_bind]
  dsimp only
  rw [require_of _ rfl, Except.ok_bind, List.length_nil, Graph.add_of_lt (by omega), Except.ok_bind,
    Graph.add_of_lt (by omega), Except.ok_bind, Graph.checkWork, require_of _ htotal,
    Except.ok_bind,
    require_of _ (List.forall_mem_nil _), Except.ok_bind, Graph.add_of_lt (by omega),
    Except.ok_bind, Graph.add_of_lt (by omega), Except.ok_bind, require]
  simp only [hlive, if_neg (Nat.not_lt.2 hsmall)]
  split_ifs with hfits
  · exact .inl ⟨hfits, _, rfl⟩
  · exact .inr ⟨hfits, rfl⟩

/-- The validation of the projection. -/
theorem validate_projectionPlan_cases (hhidden : 0 < hidden ∧ hidden ≤ 1024)
    (hvocab : 0 < vocab ∧ vocab ≤ 1024) :
    (GraphFits hidden vocab ∧ ∃ graph,
        (projectionPlan hidden vocab).validate projectionLimits = .ok graph ∧
          graph.plan = projectionPlan hidden vocab) ∨
      ¬ GraphFits hidden vocab ∧
        (projectionPlan hidden vocab).validate projectionLimits =
          raise (graphRefusal hidden vocab) := by
  rcases validateBudget_projectionPlan_cases hhidden hvocab with
    ⟨hfits, budget, hbudget⟩ | ⟨hfits, hrefused⟩
  · exact .inl ⟨hfits, ⟨_, budget, _, hbudget⟩, F32GraphV1.validate_eq_ok_iff.2 ⟨rfl, hbudget⟩, rfl⟩
  · refine .inr ⟨hfits, ?_⟩
    rw [F32GraphV1.validate]
    split
    · next budget hbudget => cases hrefused.symm.trans hbudget
    · next e he => rw [Except.error.inj (he.symm.trans hrefused)]; rfl

end Plan

/-! ### Execution on the buffers of a session -/

/-- The host refuses memory, or it grants more than the accounting of the executor can hold. -/
inductive MemoryFailure (granted : Prop) : Stop PortableError → Prop
  | refusal {e : Stop PortableError} (he : IsRefusal e) (hg : ¬ granted) : MemoryFailure granted e
  | handleReservation (hg : ¬ granted) :
    MemoryFailure granted (.error (CpuGraph.invalid "CPU graph node-handle reservation failed"))
  | handleCapacity : MemoryFailure granted
      (.error (CpuGraph.invalid "CPU graph node-handle capacity overflows usize"))
  | retainedCapacity : MemoryFailure granted
      (.error (CpuGraph.invalid "CPU graph capacity accounting overflows u64"))

/-- The host refuses memory, it grants more than the accounting can hold, or the model does not
fit. -/
inductive GraphFailure (spec : SyntheticPortableModelSpecV1) (granted : Prop) :
    Stop PortableSessionError → Prop
  | refusal {e : Stop PortableSessionError} (he : IsBackend e) (hg : ¬ granted) :
    GraphFailure spec granted e
  | handleCapacity : GraphFailure spec granted
      (mapPortable (.error (CpuGraph.invalid "CPU graph node-handle capacity overflows usize")))
  | retainedCapacity : GraphFailure spec granted
      (mapPortable (.error (CpuGraph.invalid "CPU graph capacity accounting overflows u64")))
  | limits (hfits : ¬ GraphFits spec.hiddenSize spec.vocabSize) : GraphFailure spec granted
      (mapPortable (.error (graphRefusal spec.hiddenSize spec.vocabSize)))

theorem MemoryFailure.graphFailure {spec : SyntheticPortableModelSpecV1} {granted : Prop}
    {e : Stop PortableError} (he : MemoryFailure granted e) :
    GraphFailure spec granted (mapPortable e) := by
  cases he with
  | refusal he hg => exact .refusal (isBackend_mapPortable he) hg
  | handleReservation hg => exact .refusal ⟨_, rfl⟩ hg
  | handleCapacity => exact .handleCapacity
  | retainedCapacity => exact .retainedCapacity

/-- The buffers of an execution, on a host that grants memory if it is to. -/
def Running (granted : Prop) (inputs computed : List CpuBuffer) (run : GraphRun) : Prop :=
  run.inputs = inputs ∧ run.computed = computed ∧ (granted → run.host.Grants)

section Execution

variable {granted : Prop} {α : Type} {inputs computed : List CpuBuffer}

theorem onHost_delivers {E : Stop PortableError → Prop} {m : HostM α} {Q : α → Prop}
    (h : Delivers granted E m Q) :
    Fallible.Spec (Running granted inputs computed) (CpuGraph.onHost m)
      (fun a run => Q a ∧ Running granted inputs computed run) fun e _ => E e ∧ ¬ granted := by
  refine Fallible.Spec.of_forall fun run hrun => ?_
  have hlift : Fallible.Spec _ (CpuGraph.onHost m) _ _ := Fallible.Spec.zoom run h
  refine hlift.conseq (fun _ hs => ⟨hs, hs ▸ hrun.2.2⟩) ?_ ?_
  · rintro a _ ⟨host, ⟨ha, hhost⟩, rfl⟩
    exact ⟨ha, hrun.1, hrun.2.1, hhost⟩
  · rintro e _ ⟨host, he, rfl⟩
    exact he

theorem reserveHandles_delivers (nodes : ℕ) :
    Delivers granted
      (fun e => e = .error (CpuGraph.invalid "CPU graph node-handle reservation failed"))
      (reserveHandles nodes) fun _ => True := by
  intro host hhost
  change Fallible.Post _ _ ((tryReserveExact nodes >>= _).run host)
  rw [Fallible.run_bind_ok rfl]
  cases h : host.answer 0 nodes with
  | ok capacity => exact ⟨trivial, fun hg => (hhost hg).rest⟩
  | error error =>
    refine ⟨rfl, fun hg => ?_⟩
    obtain ⟨capacity, hcapacity⟩ := hhost hg 0 nodes
    cases h.symm.trans hcapacity

variable {spec : SyntheticPortableModelSpecV1} {s : CpuPortableSession} {committed : List ℕ}

theorem hostBytes_of_le {shape : F32ShapeV1}
    (hpos : 0 < shape.size) (hle : shape.payload ≤ isizeMax) :
    hostBytes shape = .ok shape.payload := by
  have hbytes : shape.bytes = .ok shape.payload :=
    F32ShapeV1.bytes_eq_ok_iff.2 ⟨hpos, rfl, hle.trans_lt (by decide)⟩
  rw [hostBytes, hbytes, Except.ok_bind, require_of _ hle]
  rfl

theorem checkTensor_of_le {device : CpuDevice} {shape : F32ShapeV1} (hpos : 0 < shape.size)
    (hle : shape.payload ≤ device.maxBufferBytes) : checkTensor device shape = .ok ⟨⟩ := by
  rw [checkTensor, hostBytes_of_le hpos (hle.trans device.maxBufferBytes_le), Except.ok_bind]
  exact require_of _ hle

/-- A tensor of a session is a binding for every shape of its size. -/
theorem IsTensor.checkBinding_eq {shape : F32ShapeV1} {buffer : CpuBuffer} {values : List F32}
    (h : IsTensor buffer values) (hpos : 0 < shape.size) (hhost : shape.payload ≤ isizeMax)
    (hlength : values.length = shape.size) : checkBinding shape buffer = .ok ⟨⟩ := by
  have hlen : buffer.len = shape.payload := by
    rw [CpuBuffer.len, h.length_bytes, hlength]
    rfl
  have hfinite : ∀ x ∈ buffer.values, x.isFinite = true := by
    rw [h.values_eq]
    exact h.finite
  refine ((checkBinding_cases hpos hhost hlen hfinite).resolve_right fun hrefused => ?_).1
  rw [h.usages_eq, contains_storage] at hrefused
  cases hrefused.1

/-- The node of the projection computes the logits of the tokens whose sum it is given. -/
theorem Built.executeNode_spec (hs : Built spec s) (hlt : committed.length < 2 ^ 24)
    {input : CpuBuffer} (hinput : IsTensor input (spec.sumOf committed)) (kernels : CpuF32KernelsV1)
    (hscratch : spec.vocabSize * 4 ≤ kernels.maxScratchBytes) :
    Fallible.Spec (Running granted [input, s.lmHead] [])
      (executeNode s.device kernels ⟨.projectKn 0 1, .vector spec.vocabSize⟩ ⟨0, 0⟩)
      (fun _ run => ∃ output, IsTensor output (spec.logitsOf committed) ∧
        Running granted [input, s.lmHead] [output] run)
      fun e _ => MemoryFailure granted e := by
  have hvocab := spec.vocabSize_mem.1
  have hpayload : (F32ShapeV1.vector spec.vocabSize).payload = spec.vocabSize * 4 := rfl
  have hbytes : (F32ShapeV1.vector spec.vocabSize).bytes = .ok (spec.vocabSize * 4) :=
    F32ShapeV1.bytes_eq_ok_iff.2 ⟨hvocab, hpayload.symm, hs.lt_wordLimit hs.vocab_le⟩
  have hhost : hostBytes (.vector spec.vocabSize) = .ok (spec.vocabSize * 4) := by
    rw [hostBytes, hbytes, Except.ok_bind,
      require_of _ (hs.vocab_le.trans s.device.maxBufferBytes_le)]
    rfl
  have hne : spec.vocabSize * 4 ≠ 0 := Nat.mul_ne_zero hvocab.ne' (by decide)
  have hwidth : input.len / 4 = spec.hiddenSize := by
    rw [CpuBuffer.len, hinput.length_bytes, length_sumOf, Nat.mul_div_cancel _ (by decide)]
  rw [executeNode, hbytes, Except.ok_bind, BufferDesc.new_of_ne _ hne (by decide),
    Fallible.ofExcept_ok_bind]
  refine Fallible.Spec.bind ((onHost_delivers (s.device.createBuffer_delivers hne rfl hs.vocab_le
    MemoryClass.noConfusion)).conseq (fun _ h => h) (fun _ _ h => h)
      fun _ _ h => .refusal h.1 h.2) fun output => Fallible.Spec.of_forall ?_
  rintro run ⟨⟨hdescriptor, hzeros⟩, hrunning⟩
  have hroom : output.Room spec.vocabSize := by
    refine ⟨hdescriptor ▸ contains_storage, ?_, hvocab⟩
    rw [hzeros, List.length_replicate]
  have hinputValue : value 0 run.inputs run.computed = .ok input := by
    rw [hrunning.1]
    rfl
  have hheadValue : value 1 run.inputs run.computed = .ok s.lmHead := by
    rw [hrunning.1]
    rfl
  have hdispatch : Fallible.Spec (fun r => r = run)
      (dispatch kernels (.projectKn 0 1) (.vector spec.vocabSize) output)
      (fun written r => (written.1.Stores (spec.logitsOf committed) ∧
        written.1.descriptor = output.descriptor) ∧ Running granted [input, s.lmHead] [] r)
      fun e _ => MemoryFailure granted e := by
    rw [dispatch]
    refine Fallible.Spec.get_bind ?_
    simp only [hinputValue, hheadValue, hhost, Fallible.ofExcept_ok_bind, hwidth,
      Nat.mul_div_cancel spec.vocabSize (by decide : 0 < 4)]
    exact (onHost_delivers (hs.projectKn_delivers hlt hinput hroom hscratch)).conseq
      (fun _ h => h ▸ hrunning) (fun _ _ h => h) fun _ _ h => .refusal h.1 h.2
  refine Fallible.Spec.bind hdispatch fun dispatched => ?_
  obtain ⟨written, report⟩ := dispatched
  refine Fallible.Spec.of_forall ?_
  rintro run' ⟨⟨hstores, hwritten⟩, hrunning'⟩
  have htensor : IsTensor written (spec.logitsOf committed) :=
    ⟨hstores, by rw [hwritten, hdescriptor]; rfl⟩
  refine Fallible.Spec.bind (R := fun _ r => r = run')
    (Fallible.Spec.ofExcept (fun _ _ _ h => h) fun e he _ _ => ?_) fun retained => ?_
  · rw [eq_of_okOr_eq_error he]
    exact .retainedCapacity
  · rintro _ rfl
    exact ⟨written, htensor, hrunning'.1, congrArg (· ++ [written]) hrunning'.2.1, hrunning'.2.2⟩

theorem Built.head_le (hs : Built spec s) :
    spec.hiddenSize * spec.vocabSize * 4 ≤ s.device.maxBufferBytes := by
  rw [hs.device_eq, Nat.mul_comm spec.hiddenSize]
  exact hs.table_le

/-- The tensors of the projection fit the device of the session. -/
theorem Built.checkTensors_eq (hs : Built spec s) :
    ((projectionPlan spec.hiddenSize spec.vocabSize).inputs ++
      (projectionPlan spec.hiddenSize spec.vocabSize).nodes.map StraightLine.Node.output).forM
        (checkTensor s.device) = .ok ⟨⟩ := by
  have hhidden := spec.hiddenSize_mem.1
  have hvocab := spec.vocabSize_mem.1
  refine forM_eq_ok_iff.2 (List.forall_mem_cons.2 ⟨?_, List.forall_mem_cons.2 ⟨?_,
    List.forall_mem_singleton.2 ?_⟩⟩)
  · exact checkTensor_of_le (by exact hhidden) hs.hidden_le
  · exact checkTensor_of_le (by exact Nat.mul_pos hhidden hvocab) hs.head_le
  · exact checkTensor_of_le (by exact hvocab) hs.vocab_le

/-- The sum of tokens and the language head of the session bind the inputs of the projection. -/
theorem Built.checkBindings_eq (hs : Built spec s) {input : CpuBuffer}
    (hinput : IsTensor input (spec.sumOf committed)) :
    ((projectionPlan spec.hiddenSize spec.vocabSize).inputs.zip [input, s.lmHead]).forM
      (fun binding => checkBinding binding.1 binding.2) = .ok ⟨⟩ := by
  have hhidden := spec.hiddenSize_mem.1
  have hvocab := spec.vocabSize_mem.1
  have hdevice := s.device.maxBufferBytes_le
  refine forM_eq_ok_iff.2 (List.forall_mem_cons.2 ⟨?_, List.forall_mem_singleton.2 ?_⟩)
  · exact hinput.checkBinding_eq (by exact hhidden) (hs.hidden_le.trans hdevice)
      (length_sumOf spec committed)
  · exact hs.lmHead.checkBinding_eq (by exact Nat.mul_pos hhidden hvocab)
      (hs.head_le.trans hdevice) spec.length_headTable

/-- The projection of a model executes on the sum of tokens. -/
theorem Built.projection_spec (hs : Built spec s) (hlt : committed.length < 2 ^ 24)
    {input : CpuBuffer} (hinput : IsTensor input (spec.sumOf committed)) (handleBytes : ℕ)
    {graph : ValidatedF32GraphV1}
    (hplan : graph.plan = projectionPlan spec.hiddenSize spec.vocabSize) :
    Fallible.Spec (Running granted [input, s.lmHead] [])
      (executeF32Graph handleBytes s.device graph)
      (fun result run => IsTensor result.output (spec.logitsOf committed) ∧
        (granted → run.host.Grants))
      fun e _ => MemoryFailure granted e := by
  obtain ⟨plan, budget, limits, hvalidated⟩ := graph
  obtain rfl : plan = projectionPlan spec.hiddenSize spec.vocabSize := hplan
  obtain ⟨-, rfl⟩ := F32GraphV1.validateBudget_eq_ok_iff.1 hvalidated
  have hscratch : (projectionPlan spec.hiddenSize
      spec.vocabSize).exactBudget.maxScratchPayloadBytes = spec.vocabSize * 4 := Nat.zero_max _
  have hkernels : 0 < spec.vocabSize * 4 ∧ spec.vocabSize * 4 ≤ isizeMax :=
    ⟨Nat.mul_pos spec.vocabSize_mem.1 (by decide),
      hs.vocab_le.trans s.device.maxBufferBytes_le⟩
  have hkernelsNew : CpuF32KernelsV1.new (projectionPlan spec.hiddenSize
      spec.vocabSize).exactBudget.maxScratchPayloadBytes = .ok ⟨_, hkernels.1, hkernels.2⟩ := by
    rw [hscratch]
    exact dif_pos hkernels
  set plan := projectionPlan spec.hiddenSize spec.vocabSize with hplan
  have htensors : (plan.inputs ++ plan.nodes.map StraightLine.Node.output).forM
      (checkTensor s.device) = .ok ⟨⟩ := hs.checkTensors_eq
  have hbindings : (plan.inputs.zip [input, s.lmHead]).forM (fun binding =>
      checkBinding binding.1 binding.2) = .ok ⟨⟩ := hs.checkBindings_eq hinput
  simp only [executeF32Graph]
  rw [require_of _ ⟨rfl, rfl⟩, Fallible.ofExcept_ok_bind]
  refine Fallible.Spec.of_forall fun run hrun => Fallible.Spec.get_bind ?_
  have hcount : [input, s.lmHead].length = plan.inputs.length := rfl
  rw [hrun.1, require_of _ hcount, Fallible.ofExcept_ok_bind, htensors, Fallible.ofExcept_ok_bind,
    hbindings, Fallible.ofExcept_ok_bind, hkernelsNew, Fallible.ofExcept_ok_bind]
  refine Fallible.Spec.bind (R := fun _ run => Running granted [input, s.lmHead] [] run)
    (Fallible.Spec.modify _ fun _ h => h ▸ ⟨hrun.1, rfl, hrun.2.2⟩) fun _ => ?_
  refine Fallible.Spec.bind ((onHost_delivers (reserveHandles_delivers _)).conseq (fun _ h => h)
    (fun _ _ h => h.2) fun e _ h => ?_) fun handles => ?_
  · rw [h.1]
    exact .handleReservation h.2
  refine Fallible.Spec.bind (R := fun _ run => Running granted [input, s.lmHead] [] run)
    (Fallible.Spec.ofExcept (fun _ _ _ h => h) fun e he _ _ => ?_) fun capacity => ?_
  · rw [eq_of_okOr_eq_error he]
    exact .handleCapacity
  refine Fallible.Spec.bind (R := fun _ run => ∃ output, IsTensor output (spec.logitsOf committed) ∧
    Running granted [input, s.lmHead] [output] run) ?_ fun capacities => Fallible.Spec.of_forall ?_
  · exact (hs.executeNode_spec hlt hinput ⟨_, hkernels.1, hkernels.2⟩ (Nat.le_refl _)).bind
      fun capacities => Fallible.Spec.pure capacities fun _ h => h
  rintro run' ⟨output, houtput, hrun'⟩
  refine Fallible.Spec.get_bind ?_
  rw [hrun'.2.1, List.getLast?_singleton, okOr, Fallible.ofExcept_ok_bind]
  rintro _ rfl
  exact ⟨houtput, hrun'.2.2⟩

theorem Built.executeOn_spec (hs : Built spec s) (hlt : committed.length < 2 ^ 24)
    {input : CpuBuffer} (hinput : IsTensor input (spec.sumOf committed)) (handleBytes : ℕ)
    {graph : ValidatedF32GraphV1}
    (hplan : graph.plan = projectionPlan spec.hiddenSize spec.vocabSize) :
    Fallible.Spec (fun host => granted → host.Grants)
      (executeOn handleBytes s.device graph [input, s.lmHead])
      (fun result host => IsTensor result.output (spec.logitsOf committed) ∧
        (granted → host.Grants))
      fun e _ => MemoryFailure granted e := by
  intro host hhost
  have hpost := hs.projection_spec hlt hinput handleBytes hplan ⟨host, [input, s.lmHead], []⟩
    ⟨rfl, rfl, hhost⟩
  rw [executeOn]
  dsimp only
  rcases hrun : (executeF32Graph handleBytes s.device graph).run ⟨host, [input, s.lmHead], []⟩ with
    ⟨e | result, run⟩
  · rw [hrun] at hpost
    exact hpost
  · rw [hrun] at hpost
    exact hpost

/-- Adding the values of a row one after the other adds the row. -/
theorem foldlM_addPending {xs row : List F32} (hlength : xs.length = row.length)
    (hfinite : ∀ x ∈ List.zipWith Binary.add xs row, x.isFinite = true) (done : List F32) :
    ((xs.zip row).zipIdx done.length).foldlM addPending (done ++ xs) =
      .ok (done ++ List.zipWith Binary.add xs row) := by
  induction xs generalizing row done with
  | nil => rfl
  | cons x xs ih =>
    cases row with
    | nil => cases hlength
    | cons y row =>
      rw [List.zipWith_cons_cons, List.forall_mem_cons] at hfinite
      have hset : (done ++ x :: xs).set done.length (x.add y) = (done ++ [x.add y]) ++ xs := by
        simp
      have hrest := ih (Nat.succ.inj hlength) hfinite.2 (done ++ [x.add y])
      rw [List.length_append, List.length_singleton] at hrest
      have hstep : addPending (done ++ x :: xs) ((x, y), done.length) =
          .ok ((done ++ [x.add y]) ++ xs) := by
        rw [addPending, require_of _ hfinite.1, Except.ok_bind, ← hset]
        rfl
      rw [List.zip_cons_cons, List.zipIdx_cons, List.foldlM_cons, hstep, Except.ok_bind]
      refine hrest.trans ?_
      rw [List.zipWith_cons_cons, List.append_assoc, List.singleton_append]

/-- The graph gives the logits of the committed tokens and the one whose row is pending. -/
theorem Follows.logitsViaF32Graph_spec {mode : PortableKvStorageModeV1} {h : TokenHistory}
    (hs : Follows spec mode h s) (handleBytes token : ℕ) :
    Fallible.Spec (fun host => granted → host.Grants)
      (s.logitsViaF32Graph handleBytes (spec.embeddingRow token))
      (fun logits _ => GraphFits spec.hiddenSize spec.vocabSize ∧
        logits = spec.logitsOf (h.committed ++ [token]))
      fun e _ => GraphFailure spec granted e := by
  have hlt : (h.committed ++ [token]).length < 2 ^ 24 := by
    rw [List.length_append, List.length_singleton]
    exact Nat.lt_of_le_of_lt (Nat.succ_le_succ hs.length_le) (by norm_num)
  have hlength : (spec.sumOf h.committed).length = (spec.embeddingRow token).length := by
    rw [length_sumOf, length_embeddingRow]
  have hsum : List.zipWith Binary.add (spec.sumOf h.committed) (spec.embeddingRow token) = _ :=
    sumOf_concat hs.length_lt token
  have hfinite : ∀ x ∈ spec.sumOf (h.committed ++ [token]), x.isFinite = true := finite_sumOf hlt
  have hcontext := foldlM_addPending hlength (by rw [hsum]; exact hfinite) []
  rw [hsum, List.nil_append, List.nil_append, List.length_nil] at hcontext
  have htensor : Delivers granted IsBackend
      (tensor s.device (spec.sumOf (h.committed ++ [token]))) _ :=
    tensor_delivers s.device (by rw [length_sumOf]; exact spec.hiddenSize_mem.1) hfinite
      (by rw [length_sumOf]; exact hs.hidden_le)
  rw [logitsViaF32Graph, hs.spec_eq, hs.runningSum_eq,
    require_of _ (spec.length_embeddingRow token), Fallible.ofExcept_ok_bind]
  rw [hcontext, Fallible.ofExcept_ok_bind]
  refine Fallible.Spec.bind (htensor.conseq (fun _ h => h) (fun _ _ h => h)
    fun _ _ he => .refusal he.1 he.2) fun contextBuf => Fallible.Spec.of_forall ?_
  rintro host ⟨hcontextBuf, hhost⟩
  rcases validate_projectionPlan_cases spec.hiddenSize_mem spec.vocabSize_mem with
    ⟨hfits, graph, hgraph, hplan⟩ | ⟨hfits, hrefused⟩
  · have hgraph' : portable (.ofExcept ((projectionPlan spec.hiddenSize spec.vocabSize).validate
        projectionLimits)) = .ofExcept (.ok graph) := by
      rw [hgraph]
      rfl
    have hexecute : Fallible.Spec (fun host => granted → host.Grants)
        (portable (executeOn handleBytes s.device graph [contextBuf, s.lmHead]))
        (fun result host => IsTensor result.output (spec.logitsOf (h.committed ++ [token])) ∧
          (granted → host.Grants)) fun e _ => GraphFailure spec granted e :=
      Fallible.Spec.mapError ((hs.executeOn_spec hlt hcontextBuf handleBytes hplan).conseq
        (fun _ h => h) (fun _ _ h => h) fun _ _ he => he.graphFailure)
    have hlogits : (spec.logitsOf (h.committed ++ [token])).length * 4 < wordLimit := by
      rw [logitsOf, List.length_map, List.length_range]
      exact hs.lt_wordLimit hs.vocab_le
    rw [hgraph', Fallible.ofExcept_ok_bind]
    refine Fallible.Spec.bind (hexecute.conseq (fun _ h => h ▸ hhost) (fun _ _ h => h)
      fun _ _ he => he) fun result => Fallible.Spec.of_forall ?_
    rintro host' ⟨houtput, hhost'⟩
    exact (readF32_delivers houtput hlogits).conseq (fun _ h => h ▸ hhost')
      (fun _ _ h => ⟨hfits, h.1⟩) fun _ _ he => .refusal he.1 he.2
  · rw [hrefused]
    rintro _ rfl
    exact .limits hfits

end Execution

/-! ### Sessions that are built -/

section Staging

variable {spec : SyntheticPortableModelSpecV1} {mode : PortableKvStorageModeV1} {h : TokenHistory}

/-- The logits that staging a token returns are those of the committed tokens and this one. -/
theorem Follows.eq_of_stageToken {s : CpuPortableSession × Allocator} (hs : Follows spec mode h s.1)
    (log2Ceil : F64 → ℤ) {token : UInt32} {staged : List F32}
    (hstaged : (perform log2Ceil (.stageToken token) s).1 = .ok (some staged)) :
    staged = spec.logitsOf (h.committed ++ [token.toNat]) := by
  obtain ⟨h', hstep, -⟩ := exists_step log2Ceil (.stageToken token) hs
  rw [hstaged] at hstep
  generalize hreply : (Except.ok (some staged) : PortableSessionReplyV1) = reply at hstep
  cases hstep with
  | interrupted message done hdone => cases hreply
  | performed =>
    rw [TokenHistory.perform, TokenHistory.plan] at hreply
    by_cases hpending : h.pending.isSome
    · rw [if_pos hpending] at hreply
      cases hreply
    · rw [if_neg hpending] at hreply
      cases hrefusal : TokenHistory.refusal spec h.committed.length token.toNat with
      | some e =>
        rw [hrefusal] at hreply
        cases hreply
      | none =>
        rw [hrefusal] at hreply
        have hanswer : staged = TokenHistory.logits spec (h.committed ++ [token.toNat]) :=
          Option.some.inj (Except.ok.inj hreply)
        rw [hanswer, TokenHistory.logits, if_neg (List.append_ne_nil_of_right_ne_nil _
          (List.cons_ne_nil _ _))]

end Staging

variable (log2Ceil : F64 → ℤ) (spec : SyntheticPortableModelSpecV1) (mode : PortableKvStorageModeV1)

/-- After any calls on any host the graph gives for the row of a token the logits of the committed
tokens and this one, which are also those that staging the token returns. It does so for the models
that fit its limits, unless the host refuses memory or grants more than the accounting can hold. -/
theorem graph_agrees (handleBytes : ℕ) :
    Fallible.Spec (fun _ => True) (withStorageMode spec mode)
      (fun s host => ∀ calls : List PortableSessionCallV1,
        let run := replies (perform log2Ceil) calls (s, host)
        ∃ h, TokenHistory.Answers spec calls .fresh run.1 h ∧ Shows spec mode h run.2.1 ∧
          ∀ (token : UInt32) (granted : Prop), token.toNat < spec.vocabSize →
            Fallible.Spec (fun host => granted → host.Grants)
              (run.2.1.gatherEmbedding token.toNat >>= run.2.1.logitsViaF32Graph handleBytes)
              (fun logits _ => GraphFits spec.hiddenSize spec.vocabSize ∧
                logits = spec.logitsOf (h.committed ++ [token.toNat]) ∧
                  ∀ (host : Allocator) (staged : List F32),
                    (perform log2Ceil (.stageToken token) (run.2.1, host)).1 = .ok (some staged) →
                      logits = staged)
              fun e _ => GraphFailure spec granted e)
      fun e _ => e ≠ .panic := by
  refine (withStorageMode_spec False spec mode).conseq (fun _ _ => False.elim)
    (fun s host hs calls => ?_) fun _ _ he => he.1
  obtain ⟨h, hanswers, hlast⟩ := exists_answers log2Ceil (s := (s, host)) calls hs.1
  refine ⟨h, hanswers, hlast.shows, fun token granted htoken => ?_⟩
  refine Fallible.Spec.bind ((hlast.gatherEmbedding_delivers htoken).conseq (fun _ hhost => hhost)
    (fun _ _ hrow => hrow) fun _ _ he => .refusal he.1 he.2) fun row => Fallible.Spec.of_forall ?_
  rintro host' ⟨rfl, hhost'⟩
  refine (hlast.logitsViaF32Graph_spec handleBytes token.toNat).conseq
    (fun _ hhost => hhost ▸ hhost')
    (fun logits _ hlogits => ⟨hlogits.1, hlogits.2, fun host'' staged hstaged => ?_⟩)
      fun _ _ he => he
  rw [hlogits.2, Follows.eq_of_stageToken (s := (_, host'')) hlast log2Ceil hstaged]

end CpuPortableSession

end NNIS
