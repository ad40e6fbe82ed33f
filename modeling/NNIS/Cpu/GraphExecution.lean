import NNIS.Core.GraphAdmission
import NNIS.Cpu.Graph
import NNIS.Cpu.NumericalSpec

/-!
# Validated graphs execute

Execution of a validated graph on finite inputs of the declared shapes: every check that the
executor and its kernels make on operands, shapes, indices and scratch memory has been decided by
the validation, so what is left to go wrong is a value that is not finite, the memory of the
process, and a buffer that may not be read by kernels. A graph that executes has computed the
reference meaning of every node and left its inputs alone.

## Main definitions

* `CpuBuffer.Holds`, `GraphRun.Typed` — buffers that store words of given shapes.
* `GraphRun.Bound` — the inputs of an execution match a plan.
* `IsLimit`, `LacksStorage` — the errors of an execution.

## Main results

* `CpuGraph.dispatch_spec`, `CpuGraph.executeNode_spec`.
* `executeF32Graph_spec` — outcome of an execution.
-/

set_option autoImplicit false

namespace NNIS

open Outcome CpuF32 CpuGraph

/-- The buffer stores finite words of the shape. -/
structure CpuBuffer.Holds (buffer : CpuBuffer) (shape : F32ShapeV1) : Prop
    extends buffer.Stores buffer.values where
  length_values_eq : buffer.values.length = shape.size

namespace GraphRun

/-- All buffers of an execution, in the numbering of values. -/
def buffers (run : GraphRun) : List CpuBuffer := run.inputs ++ run.computed

/-- The words of all buffers. -/
def values (run : GraphRun) : List (List F32) := run.buffers.map CpuBuffer.values

/-- The buffers store words of the given shapes. -/
def Typed (run : GraphRun) (Γ : List F32ShapeV1) : Prop :=
  List.Forall₂ CpuBuffer.Holds run.buffers Γ

/-- The two states hold the same buffers. -/
def SameBuffers (run₀ run : GraphRun) : Prop :=
  run.inputs = run₀.inputs ∧ run.computed = run₀.computed

end GraphRun

namespace GraphRun

/-- The input buffers have the declared byte lengths and hold finite words. -/
def Bound (run : GraphRun) (plan : F32GraphV1) : Prop :=
  List.Forall₂ (fun buffer shape =>
    buffer.len = shape.payload ∧ ∀ x ∈ buffer.values, x.isFinite = true) run.inputs plan.inputs

/-- The refusal of an input buffer that kernels may not read. -/
def LacksStorage (run : GraphRun) (e : Stop PortableError) : Prop :=
  (∃ buffer ∈ run.inputs, buffer.descriptor.usages.contains .storage = false) ∧
    e = .error (.unsupported "CPU graph input requires buffer usage bits 1")

end GraphRun

/-- An error of the memory of the process or of the device, or a value that is not finite. -/
inductive IsLimit : Stop PortableError → Prop
  | nonFinite : IsLimit (.error CpuF32.nonFinite)
  | refusal {e : Stop PortableError} (h : IsRefusal e) : IsLimit e
  | handleReservation :
      IsLimit (.error (CpuGraph.invalid "CPU graph node-handle reservation failed"))
  | handleCapacity :
      IsLimit (.error (CpuGraph.invalid "CPU graph node-handle capacity overflows usize"))
  | retainedCapacity :
      IsLimit (.error (CpuGraph.invalid "CPU graph capacity accounting overflows u64"))
  | device :
      IsLimit (.error (CpuGraph.invalid "CPU graph tensor exceeds device per-buffer capability"))
  | host : IsLimit (.error (CpuGraph.invalid "CPU graph tensor exceeds host allocation limit"))

theorem IsLimit.of_kernelError {e : Stop PortableError} (h : KernelError e) : IsLimit e := by
  rcases h with h | rfl
  · exact .refusal h
  · exact .nonFinite

namespace CpuGraph

/-! ### Operands -/

private theorem exists_getElem?_of_forall₂ {α β : Type} {R : α → β → Prop} {l : List α}
    {l' : List β} (h : List.Forall₂ R l l') {i : ℕ} {b : β} (hb : l'[i]? = some b) :
    ∃ a, l[i]? = some a ∧ R a b := by
  induction h generalizing i with
  | nil => exact nomatch hb
  | @cons a b' l l' hab _ ih =>
    cases i with
    | zero => exact ⟨a, rfl, Option.some.inj hb ▸ hab⟩
    | succ i => exact ih hb

/-- An operand of a known shape is available and stores words of that shape. -/
theorem operand {run : GraphRun} {Γ : List F32ShapeV1} (htyped : run.Typed Γ) {id : ℕ}
    {shape : F32ShapeV1} (h : Γ[id]? = some shape) :
    ∃ buffer, value id run.inputs run.computed = .ok buffer ∧ buffer.Stores run.values[id]! ∧
      run.values[id]!.length = shape.size := by
  obtain ⟨buffer, hget, hholds⟩ := exists_getElem?_of_forall₂ htyped h
  have hvalues : run.values[id]! = buffer.values := by
    rw [GraphRun.values, getElem!_def, List.getElem?_map, hget]
    rfl
  refine ⟨buffer, ?_, hvalues ▸ hholds.toStores, hvalues ▸ hholds.length_values_eq⟩
  unfold value
  rw [GraphRun.buffers, List.getElem?_append] at hget
  split_ifs with hid
  · rw [if_pos hid] at hget
    exact index_eq_ok_iff.2 hget
  · rw [if_neg hid] at hget
    exact okOr_eq_ok_iff.2 hget

/-! ### One node -/

private theorem length_scatterAdd (base source : List F32) (indices : List ℕ) :
    (Tensor.scatterAdd base source indices).length = base.length := by
  unfold Tensor.scatterAdd
  induction indices.zip source generalizing base with
  | nil => rfl
  | cons entry entries ih => rw [List.foldl_cons, ih, List.length_modify]

theorem onHost_spec {α : Type} {m : HostM α} {Q : α → Prop} {E : Stop PortableError → Prop}
    (h : Fallible.Spec (fun _ => True) m (fun a _ => Q a) fun e _ => E e) (run₀ : GraphRun) :
    Fallible.Spec (fun run => run = run₀) (onHost m) (fun a run => Q a ∧ run₀.SameBuffers run)
      fun e run => E e ∧ run₀.SameBuffers run := by
  refine (h.zoom run₀).conseq (fun run hrun => ⟨hrun, trivial⟩) ?_ ?_
  · rintro a _ ⟨host, ha, rfl⟩
    exact ⟨ha, rfl, rfl⟩
  · rintro e _ ⟨host, he, rfl⟩
    exact ⟨he, rfl, rfl⟩

private theorem kernel_spec {m : HostM (CpuBuffer × CpuF32ReportV1)} {ys : List F32} {n : ℕ}
    (h : Fallible.Spec (fun _ => True) m (fun written _ => written.1.Stores ys)
      fun e _ => KernelError e) (hlength : ys.length = n) (run₀ : GraphRun) :
    Fallible.Spec (fun run => run = run₀) (onHost m)
      (fun written run => (written.1.Stores ys ∧ ys.length = n) ∧ run₀.SameBuffers run)
      fun e run => KernelError e ∧ run₀.SameBuffers run :=
  onHost_spec (h.conseq (fun _ h => h) (fun _ _ hw => ⟨hw, hlength⟩) fun _ _ he => he) run₀

/-- The kernel of a well-formed operation writes the operation's meaning to a fresh buffer of the
operation's shape. -/
theorem dispatch_spec (kernels : CpuF32KernelsV1) {run₀ : GraphRun} {Γ : List F32ShapeV1}
    (htyped : run₀.Typed Γ) (hfit : ∀ s ∈ Γ, s.payload ≤ isizeMax) {operation : F32OpV1}
    {shape : F32ShapeV1} (hshape : operation.HasShape Γ shape) {output : CpuBuffer}
    (hroom : output.Room shape.size) (hscratch : shape.payload ≤ kernels.maxScratchBytes)
    (hhost : hostBytes shape = .ok shape.payload) :
    Fallible.Spec (fun run => run = run₀) (dispatch kernels operation shape output)
      (fun written run => (written.1.Stores (operation.meaning run₀.values) ∧
        (operation.meaning run₀.values).length = shape.size) ∧ run₀.SameBuffers run)
      fun e run => KernelError e ∧ run₀.SameBuffers run := by
  rw [dispatch]
  refine Fallible.Spec.get_bind ?_
  cases hshape with
  | @add left right n hleft hright =>
    obtain ⟨l, hl, hxs, hlen⟩ := operand htyped hleft
    obtain ⟨r, hr, hws, hlen'⟩ := operand htyped hright
    simp only [hl, hr, Fallible.ofExcept_ok_bind]
    refine kernel_spec (kernels.binary_spec .add hxs hws (hlen.trans hlen'.symm)
      (hlen.symm ▸ hroom) (hlen.symm ▸ hscratch)) ?_ run₀
    rw [List.length_zipWith, hlen, hlen', Nat.min_self]
  | @multiply left right n hleft hright =>
    obtain ⟨l, hl, hxs, hlen⟩ := operand htyped hleft
    obtain ⟨r, hr, hws, hlen'⟩ := operand htyped hright
    simp only [hl, hr, Fallible.ofExcept_ok_bind]
    refine kernel_spec (kernels.binary_spec .multiply hxs hws (hlen.trans hlen'.symm)
      (hlen.symm ▸ hroom) (hlen.symm ▸ hscratch)) ?_ run₀
    rw [List.length_zipWith, hlen, hlen', Nat.min_self]
  | @relu input n hinput =>
    obtain ⟨b, hb, hxs, hlen⟩ := operand htyped hinput
    simp only [hb, Fallible.ofExcept_ok_bind]
    refine kernel_spec (kernels.relu_spec hxs (hlen.symm ▸ hroom) (hlen.symm ▸ hscratch)) ?_ run₀
    rw [List.length_map, hlen]
  | @sum input n hinput =>
    obtain ⟨b, hb, hxs, hlen⟩ := operand htyped hinput
    simp only [hb, Fallible.ofExcept_ok_bind]
    exact kernel_spec (kernels.sum_spec hxs hroom hscratch) rfl run₀
  | @projectKn input weights k n hinput hweights =>
    obtain ⟨b, hb, hxs, hlen⟩ := operand htyped hinput
    obtain ⟨w, hw, hws, hlen'⟩ := operand htyped hweights
    have hlt : run₀.values[weights]!.length < wordLimit := by
      have hle := (F32ShapeV1.size_le_payload _).trans (hfit _ (List.mem_of_getElem? hweights))
      rw [hlen']
      exact hle.trans_lt (by decide)
    have hmul : run₀.values[weights]!.length = run₀.values[input]!.length * n := by
      rw [hlen, hlen']
      rfl
    have hk : b.len / 4 = run₀.values[input]!.length := by
      rw [CpuBuffer.len, hxs.length_bytes, Nat.mul_div_cancel _ (by decide)]
    have hn : (F32ShapeV1.vector n).payload / 4 = n := Nat.mul_div_cancel n (by decide)
    simp only [hb, hw, hhost, hk, hn, Fallible.ofExcept_ok_bind]
    refine kernel_spec (kernels.projectKn_spec hxs hws hmul hlt hroom hscratch) ?_ run₀
    rw [Tensor.projectKn, List.length_map, List.length_range, hmul,
      Nat.mul_div_cancel_left n hxs.pos]
    rfl
  | @gather input n selection hinput hne hrange =>
    obtain ⟨b, hb, hxs, hlen⟩ := operand htyped hinput
    simp only [hb, Fallible.ofExcept_ok_bind]
    exact kernel_spec (kernels.gather_spec hxs hne (fun i hi => hlen.symm ▸ hrange i hi) hroom
      hscratch) (List.length_map _) run₀
  | @scatterAdd base source n selection hbase hsource hrange =>
    obtain ⟨b, hb, hxs, hlen⟩ := operand htyped hbase
    obtain ⟨c, hc, hws, hlen'⟩ := operand htyped hsource
    have hcopy : b.bytes.length = output.bytes.length := by
      rw [hxs.length_bytes, hroom.length_bytes, hlen]
    have hout : ({ output with bytes := b.bytes } : CpuBuffer).Stores run₀.values[base]! :=
      ⟨⟨hroom.storage, hxs.length_bytes, hxs.pos⟩, hxs.values_eq, hxs.finite⟩
    simp only [hb, hc, if_pos hcopy, Fallible.ofExcept_ok_bind]
    refine kernel_spec (kernels.scatterAdd_spec hws hout hlen'
      (fun i hi => hlen.symm ▸ hrange i hi) (hlen.symm ▸ hscratch)) ?_ run₀
    rw [length_scatterAdd, hlen]

/-- A node that is well formed over the buffers so far adds a buffer with its meaning. -/
theorem executeNode_spec (device : CpuDevice) (kernels : CpuF32KernelsV1) {run₀ : GraphRun}
    {Γ : List F32ShapeV1} (htyped : run₀.Typed Γ) (hfit : ∀ s ∈ Γ, s.payload ≤ isizeMax)
    {node : F32NodeV1} (hshape : node.operation.HasShape Γ node.output)
    (hpos : 0 < node.output.size) (hdevice : node.output.payload ≤ device.maxBufferBytes)
    (hscratch : node.output.payload ≤ kernels.maxScratchBytes) (capacities : Capacities) :
    Fallible.Spec (fun run => run = run₀) (executeNode device kernels node capacities)
      (fun _ run => run.inputs = run₀.inputs ∧ ∃ buffer,
        run.computed = run₀.computed ++ [buffer] ∧ buffer.Holds node.output ∧
          buffer.values = node.operation.meaning run₀.values)
      fun e run => IsLimit e ∧ run.inputs = run₀.inputs := by
  have hhost : node.output.payload ≤ isizeMax := hdevice.trans device.maxBufferBytes_le
  have hpayload : node.output.payload ≠ 0 := Nat.mul_ne_zero hpos.ne' (by decide)
  have hbytes : node.output.bytes = .ok node.output.payload :=
    F32ShapeV1.bytes_eq_ok_iff.2 ⟨hpos, rfl, hhost.trans_lt (by decide)⟩
  have hhostBytes : hostBytes node.output = .ok node.output.payload := by
    rw [hostBytes, hbytes, Except.ok_bind, require_of _ hhost]
    rfl
  let usages := BufferUsages.storage ||| BufferUsages.copySrc ||| BufferUsages.copyDst
  have husages : usages.isEmpty = false := by decide
  have hstorage : usages.contains .storage = true := by decide
  rw [executeNode, hbytes, Except.ok_bind, BufferDesc.new_of_ne _ hpayload husages,
    Fallible.ofExcept_ok_bind]
  have hcreate := @CpuDevice.createBuffer_spec device ⟨node.output.payload, usages, .host⟩ hpayload
    husages hdevice MemoryClass.noConfusion
  refine Fallible.Spec.bind ((onHost_spec hcreate run₀).conseq (fun _ h => h) (fun _ _ h => h)
    fun _ _ h => ⟨.refusal h.1, h.2.1⟩) fun output => Fallible.Spec.of_forall ?_
  rintro run₁ ⟨⟨hdescriptor, hzeros⟩, hsame₁⟩
  have hroom : output.Room node.output.size := by
    refine ⟨hdescriptor ▸ hstorage, ?_, hpos⟩
    rw [hzeros, List.length_replicate]
    rfl
  have hbuffers : run₁.buffers = run₀.buffers := by
    rw [GraphRun.buffers, GraphRun.buffers, hsame₁.1, hsame₁.2]
  have htyped₁ : run₁.Typed Γ := by
    rw [GraphRun.Typed, hbuffers]
    exact htyped
  have hvalues : run₁.values = run₀.values := congrArg (List.map CpuBuffer.values) hbuffers
  refine Fallible.Spec.bind ((dispatch_spec kernels htyped₁ hfit hshape hroom hscratch
    hhostBytes).conseq (fun _ h => h) (fun _ _ h => h) fun _ _ h =>
      ⟨.of_kernelError h.1, h.2.1.trans hsame₁.1⟩) fun ⟨written, report⟩ =>
    Fallible.Spec.of_forall ?_
  rintro run₂ ⟨⟨hstores, hlength⟩, hsame₂⟩
  dsimp only at hstores ⊢
  rw [hvalues] at hstores hlength
  have hinputs : run₂.inputs = run₀.inputs := hsame₂.1.trans hsame₁.1
  have hcomputed : run₂.computed = run₀.computed := hsame₂.2.trans hsame₁.2
  refine Fallible.Spec.bind (R := fun _ run => run = run₂)
    (Fallible.Spec.ofExcept (fun _ _ _ h => h) fun e he run hrun => ?_) fun retained => ?_
  · rw [eq_of_okOr_eq_error he, hrun]
    exact ⟨.retainedCapacity, hinputs⟩
  · rintro _ rfl
    refine ⟨hinputs, written, congrArg (· ++ [written]) hcomputed, ?_, hstores.values_eq⟩
    exact ⟨hstores.values_eq.symm ▸ hstores, hstores.values_eq.symm ▸ hlength⟩

/-! ### The checks before the first node -/

theorem hostBytes_cases {shape : F32ShapeV1} (hpos : 0 < shape.size)
    (hlt : shape.payload < wordLimit) :
    (hostBytes shape = .ok shape.payload ∧ shape.payload ≤ isizeMax) ∨
      hostBytes shape = raise (invalid "CPU graph tensor exceeds host allocation limit") := by
  have hbytes : shape.bytes = .ok shape.payload := F32ShapeV1.bytes_eq_ok_iff.2 ⟨hpos, rfl, hlt⟩
  rw [hostBytes, hbytes, Except.ok_bind]
  by_cases hle : shape.payload ≤ isizeMax
  · rw [require_of _ hle]
    exact .inl ⟨rfl, hle⟩
  · exact .inr (by rw [require_of_not _ hle]; rfl)

/-- The check of a tensor against the device passes within its limits and fails with a limit. -/
theorem checkTensor_cases (device : CpuDevice) {shape : F32ShapeV1} (hpos : 0 < shape.size)
    (hlt : shape.payload < wordLimit) :
    (checkTensor device shape = .ok ⟨⟩ ∧ shape.payload ≤ device.maxBufferBytes) ∨
      ∃ e, checkTensor device shape = .error e ∧ IsLimit e := by
  rcases hostBytes_cases hpos hlt with ⟨h, -⟩ | h
  · rw [checkTensor, h, Except.ok_bind]
    by_cases hle : shape.payload ≤ device.maxBufferBytes
    · exact .inl ⟨require_of _ hle, hle⟩
    · exact .inr ⟨_, if_neg hle, .device⟩
  · exact .inr ⟨_, by rw [checkTensor, h]; rfl, .host⟩

/-- The check of a matching binding passes exactly when the buffer may be read by kernels. -/
theorem checkBinding_cases {shape : F32ShapeV1} {buffer : CpuBuffer} (hpos : 0 < shape.size)
    (hhost : shape.payload ≤ isizeMax) (hlen : buffer.len = shape.payload)
    (hfinite : ∀ x ∈ buffer.values, x.isFinite = true) :
    (checkBinding shape buffer = .ok ⟨⟩ ∧ buffer.Holds shape) ∨
      buffer.descriptor.usages.contains .storage = false ∧
        checkBinding shape buffer =
          raise (.unsupported "CPU graph input requires buffer usage bits 1") := by
  cases husage : buffer.descriptor.usages.contains .storage with
  | false =>
    refine .inr ⟨rfl, ?_⟩
    rw [checkBinding, requireUsage, require_of_not _ (by rw [husage]; exact Bool.false_ne_true)]
    rfl
  | true =>
    have hbytes : hostBytes shape = .ok shape.payload :=
      ((hostBytes_cases hpos (hhost.trans_lt (by decide))).resolve_right fun h => by
        have hb : shape.bytes = .ok shape.payload :=
          F32ShapeV1.bytes_eq_ok_iff.2 ⟨hpos, rfl, hhost.trans_lt (by decide)⟩
        rw [hostBytes, hb, Except.ok_bind, require_of _ hhost] at h
        cases h).1
    have hsize : buffer.values.length = shape.size := by
      rw [buffer.length_values, hlen]
      exact Nat.mul_div_cancel _ (by decide)
    refine .inl ⟨?_, ⟨⟨⟨husage, ?_, hsize.symm ▸ hpos⟩, rfl, hfinite⟩, hsize⟩⟩
    · rw [checkBinding, requireUsage, require_of _ husage, Except.ok_bind, hbytes, Except.ok_bind,
        require_of _ hlen, Except.ok_bind]
      exact require_of _ hfinite
    · rw [hsize]
      exact hlen

/-! ### All nodes -/

/-- The nodes of a well-typed program, executed in order, leave their meanings behind. -/
theorem executeNodes_spec (device : CpuDevice) (kernels : CpuF32KernelsV1) (plan : F32GraphV1)
    (htyped : StraightLine.WellTyped F32OpV1.HasShape plan.inputs plan.nodes)
    (hinputs : ∀ s ∈ plan.inputs, s.payload ≤ isizeMax)
    (hnodes : ∀ node ∈ plan.nodes, 0 < node.output.size ∧
      node.output.payload ≤ device.maxBufferBytes ∧
        node.output.payload ≤ kernels.maxScratchBytes)
    {run₀ : GraphRun} (hrun : List.Forall₂ CpuBuffer.Holds run₀.inputs plan.inputs)
    (hcomputed : run₀.computed = []) (capacities : Capacities) :
    Fallible.Spec (fun run => run = run₀)
      (Fallible.foldEach plan.nodes capacities (executeNode device kernels))
      (fun _ run => run.inputs = run₀.inputs ∧
        run.computed.map CpuBuffer.values = plan.meaning (run₀.inputs.map CpuBuffer.values))
      fun e run => IsLimit e ∧ run.inputs = run₀.inputs := by
  let inputs := run₀.inputs.map CpuBuffer.values
  -- The nodes before the rest have been computed, and their buffers store their meanings.
  refine (Fallible.Spec.foldEach (fun rest _ run => ∃ before, plan.nodes = before ++ rest ∧
    run.inputs = run₀.inputs ∧ run.Typed (StraightLine.context plan.inputs before) ∧
      run.computed.map CpuBuffer.values = StraightLine.denote F32OpV1.meaning inputs before)
    plan.nodes capacities ?_).conseq ?_ ?_ fun _ _ h => h
  · rintro node rest capacities
    refine Fallible.Spec.of_forall ?_
    rintro run ⟨before, hsplit, hsame, hbuffers, hvalues⟩
    have hmem : node ∈ plan.nodes := hsplit ▸ List.mem_append_right before List.mem_cons_self
    obtain ⟨hpos, hdevice, hscratch⟩ := hnodes node hmem
    have hshape : node.operation.HasShape (StraightLine.context plan.inputs before)
        node.output := by
      rw [hsplit, StraightLine.wellTyped_append] at htyped
      exact htyped.2.1
    have hfit : ∀ s ∈ StraightLine.context plan.inputs before, s.payload ≤ isizeMax := by
      rw [StraightLine.context, List.forall_mem_append]
      refine ⟨hinputs, List.forall_mem_map.2 fun earlier hearlier => ?_⟩
      have hmem' : earlier ∈ plan.nodes := hsplit ▸ List.mem_append_left _ hearlier
      exact (hnodes earlier hmem').2.1.trans device.maxBufferBytes_le
    have hall : run.values = inputs ++ StraightLine.denote F32OpV1.meaning inputs before := by
      rw [GraphRun.values, GraphRun.buffers, List.map_append, hvalues, hsame]
    refine (executeNode_spec device kernels hbuffers hfit hshape hpos hdevice hscratch
      capacities).conseq (fun _ h => h) ?_ fun e s h => ⟨h.1, h.2.trans hsame⟩
    rintro _ s ⟨hs, buffer, hcomputed, hholds, hmeaning⟩
    refine ⟨before ++ [node], by rw [hsplit, List.append_assoc, List.singleton_append],
      hs.trans hsame, ?_, ?_⟩
    · rw [GraphRun.Typed, GraphRun.buffers, hs, hcomputed, ← List.append_assoc,
        StraightLine.context, List.map_append, ← List.append_assoc]
      exact List.rel_append hbuffers (.cons hholds .nil)
    · rw [hcomputed, List.map_append, hvalues, List.map_singleton, hmeaning, hall,
        StraightLine.denote_concat]
  · rintro _ rfl
    refine ⟨[], rfl, rfl, ?_, by rw [hcomputed]; rfl⟩
    rw [GraphRun.Typed, GraphRun.buffers, hcomputed, List.append_nil, StraightLine.context_nil]
    exact hrun
  · rintro _ s ⟨before, hsplit, hsame, -, hvalues⟩
    rw [List.append_nil] at hsplit
    rw [F32GraphV1.meaning, hsplit]
    exact ⟨hsame, hvalues⟩

theorem reserveHandles_spec (nodes : ℕ) :
    Fallible.Spec (fun _ => True) (reserveHandles nodes) (fun _ _ => True) fun e _ =>
      IsLimit e := by
  intro host _
  change Fallible.Post _ _ ((tryReserveExact nodes >>= _).run host)
  rw [Fallible.run_bind_ok rfl]
  cases host.answer 0 nodes with
  | ok capacity => trivial
  | error _ => exact .handleReservation

/-- Matching bindings pass their checks exactly when all buffers may be read by kernels. -/
private theorem checkBindings_cases {buffers : List CpuBuffer} {shapes : List F32ShapeV1}
    (hbound : List.Forall₂ (fun buffer shape => buffer.len = shape.payload ∧
      ∀ x ∈ buffer.values, x.isFinite = true) buffers shapes)
    (hpos : ∀ s ∈ shapes, 0 < s.size) (hhost : ∀ s ∈ shapes, s.payload ≤ isizeMax) :
    ((shapes.zip buffers).forM (fun binding => checkBinding binding.1 binding.2) = .ok ⟨⟩ ∧
        List.Forall₂ CpuBuffer.Holds buffers shapes) ∨
      (∃ buffer ∈ buffers, buffer.descriptor.usages.contains .storage = false) ∧
        (shapes.zip buffers).forM (fun binding => checkBinding binding.1 binding.2) =
          raise (.unsupported "CPU graph input requires buffer usage bits 1") := by
  induction hbound with
  | nil => exact .inl ⟨rfl, .nil⟩
  | @cons buffer shape buffers shapes h _ ih =>
    rw [List.forall_mem_cons] at hpos hhost
    rw [List.zip_cons_cons, forM_cons_eq]
    rcases checkBinding_cases hpos.1 hhost.1 h.1 h.2 with ⟨hcheck, hholds⟩ | ⟨husage, hcheck⟩
    · rw [hcheck, Except.ok_bind]
      rcases ih hpos.2 hhost.2 with ⟨hrest, hall⟩ | ⟨⟨b, hb, husage⟩, hrest⟩
      · exact .inl ⟨hrest, .cons hholds hall⟩
      · exact .inr ⟨⟨b, List.mem_cons_of_mem buffer hb, husage⟩, hrest⟩
    · rw [hcheck]
      exact .inr ⟨⟨buffer, List.mem_cons_self, husage⟩, rfl⟩

end CpuGraph

/-- A validated graph, executed on finite inputs of its declared shapes, fails only with a value
that is not finite, a limit of the memory or of the device, or the refusal of an input buffer that
kernels may not read. When it returns, every node's tensor is the reference meaning of its
operation. In both cases the inputs are unchanged. -/
theorem executeF32Graph_spec (handleBytes : ℕ) (device : CpuDevice) (graph : ValidatedF32GraphV1)
    (run₀ : GraphRun) (hbound : run₀.Bound graph.plan) :
    Fallible.Spec (fun run => run = run₀) (executeF32Graph handleBytes device graph)
      (fun result run => run.inputs = run₀.inputs ∧
        (run.computed ++ [result.output]).map CpuBuffer.values =
          graph.plan.meaning (run₀.inputs.map CpuBuffer.values))
      fun e run => (IsLimit e ∨ run₀.LacksStorage e) ∧ run.inputs = run₀.inputs := by
  obtain ⟨plan, budget, limits, hvalidated⟩ := graph
  obtain ⟨hadmitted, rfl⟩ := F32GraphV1.validateBudget_eq_ok_iff.1 hvalidated
  have hshapes : ∀ s ∈ plan.inputs ++ plan.nodes.map StraightLine.Node.output,
      0 < s.size ∧ s.payload < wordLimit := by
    rw [List.forall_mem_append, List.forall_mem_map]
    exact ⟨fun s hs => ⟨(hadmitted.inputs_fit s hs).1,
        (hadmitted.inputs_fit s hs).2.trans_lt limits.maxTensorBytes_lt⟩,
      fun node hnode => ⟨(hadmitted.nodes_fit node hnode).1,
        (hadmitted.nodes_fit node hnode).2.1.trans_lt limits.maxTensorBytes_lt⟩⟩
  simp only [executeF32Graph]
  rw [require_of _ ⟨hadmitted.policy, rfl⟩, Fallible.ofExcept_ok_bind]
  refine Fallible.Spec.get_bind ?_
  rw [require_of _ hbound.length_eq, Fallible.ofExcept_ok_bind]
  rcases hcheck : (plan.inputs ++ plan.nodes.map StraightLine.Node.output).forM
    (checkTensor device) with e | _
  · -- A tensor exceeds the device or the host.
    obtain ⟨shape, hmem, he⟩ := exists_of_forM_eq_error hcheck
    obtain ⟨hpos, hlt⟩ := hshapes shape hmem
    rintro _ rfl
    rcases checkTensor_cases device hpos hlt with ⟨hok, -⟩ | ⟨e', he', hlimit⟩
    · cases hok.symm.trans he
    · obtain rfl : e' = e := Except.error.inj (he'.symm.trans he)
      exact ⟨.inl hlimit, rfl⟩
  have hdevice : ∀ s ∈ plan.inputs ++ plan.nodes.map StraightLine.Node.output,
      s.payload ≤ device.maxBufferBytes := by
    intro s hs
    have hok := forM_eq_ok_iff.1 hcheck s hs
    rcases checkTensor_cases device (hshapes s hs).1 (hshapes s hs).2 with ⟨-, hle⟩ | ⟨_, he, _⟩
    · exact hle
    · cases hok.symm.trans he
  rw [List.forall_mem_append] at hshapes hdevice
  rw [List.forall_mem_map] at hdevice
  have hinputs : ∀ s ∈ plan.inputs, s.payload ≤ isizeMax := fun s hs =>
    (hdevice.1 s hs).trans device.maxBufferBytes_le
  rw [Fallible.ofExcept_ok_bind]
  rcases checkBindings_cases hbound (fun s hs => (hshapes.1 s hs).1) hinputs with
    ⟨hbindings, hholds⟩ | ⟨hstorage, hbindings⟩
  · -- The kernels can hold the largest node in their scratch memory.
    let scratch := plan.exactBudget.maxScratchPayloadBytes
    have hscratch : ∀ node ∈ plan.nodes, node.output.payload ≤ scratch := fun node hnode =>
      F32GraphV1.payload_le_maxPayload (List.mem_map_of_mem hnode)
    have hscratch_pos : 0 < scratch := by
      obtain ⟨node, hnode⟩ := List.exists_mem_of_ne_nil _ hadmitted.nodes_ne_nil
      have hpos := (hadmitted.nodes_fit node hnode).1
      exact hpos.trans_le ((F32ShapeV1.size_le_payload _).trans (hscratch node hnode))
    have hscratch_le : scratch ≤ isizeMax := F32GraphV1.maxPayload_le
      (List.forall_mem_map.2 fun node hnode =>
        (hdevice.2 node hnode).trans device.maxBufferBytes_le)
    let kernels : CpuF32KernelsV1 := ⟨scratch, hscratch_pos, hscratch_le⟩
    have hkernels : CpuF32KernelsV1.new scratch = .ok kernels :=
      dif_pos ⟨hscratch_pos, hscratch_le⟩
    rw [hbindings, Fallible.ofExcept_ok_bind, hkernels, Fallible.ofExcept_ok_bind]
    refine Fallible.Spec.bind (R := fun _ run => run.inputs = run₀.inputs ∧ run.computed = [])
      (Fallible.Spec.modify _ fun _ h => h ▸ ⟨rfl, rfl⟩) fun _ => ?_
    refine Fallible.Spec.bind (R := fun _ run => run.inputs = run₀.inputs ∧ run.computed = [])
      (Fallible.Spec.of_forall fun run₁ h₁ => (onHost_spec (reserveHandles_spec _) run₁).conseq
        (fun _ h => h) (fun _ _ h => ⟨h.2.1.trans h₁.1, h.2.2.trans h₁.2⟩)
        fun _ _ h => ⟨.inl h.1, h.2.1.trans h₁.1⟩) fun handles => ?_
    refine Fallible.Spec.bind (R := fun _ run => run.inputs = run₀.inputs ∧ run.computed = [])
      (Fallible.Spec.ofExcept (fun _ _ _ h => h) fun e he run h => ?_) fun capacity =>
        Fallible.Spec.of_forall fun run₁ h₁ => ?_
    · rw [eq_of_okOr_eq_error he]
      exact ⟨.inl .handleCapacity, h.1⟩
    refine Fallible.Spec.bind ((executeNodes_spec device kernels plan hadmitted.wellTyped hinputs
      (fun node hnode => ⟨(hadmitted.nodes_fit node hnode).1, hdevice.2 node hnode,
        hscratch node hnode⟩) (h₁.1 ▸ hholds) h₁.2 _).conseq (fun _ h => h) (fun _ _ h => h)
        fun _ _ h => ⟨.inl h.1, h.2.trans h₁.1⟩) fun capacities => Fallible.Spec.of_forall ?_
    rw [h₁.1]
    rintro run₂ ⟨hsame, hvalues⟩
    refine Fallible.Spec.get_bind ?_
    have hne : run₂.computed ≠ [] := by
      intro hnil
      have hlength := congrArg List.length hvalues
      rw [hnil, F32GraphV1.meaning, StraightLine.length_denote] at hlength
      exact hadmitted.nodes_ne_nil (List.length_eq_zero_iff.1 hlength.symm)
    rw [List.getLast?_eq_getLast_of_ne_nil hne, okOr, Fallible.ofExcept_ok_bind]
    rintro _ rfl
    refine ⟨hsame, ?_⟩
    rw [← hvalues]
    exact congrArg _ (List.dropLast_append_getLast hne)
  · rw [hbindings]
    rintro _ rfl
    exact ⟨.inr ⟨hstorage, rfl⟩, rfl⟩

/-! ### The sample graph -/

/-- The sample graph with its budget. -/
def projectReluGraph : ValidatedF32GraphV1 :=
  ⟨projectRelu, ⟨24, 16, 8, 48, 24⟩, projectReluLimits, by decide⟩

/-- A device with a small per-buffer limit. -/
def smallDevice : CpuDevice := ⟨64, by decide, by decide⟩

/-- A buffer of words with a given usage. -/
def bufferOf (usages : BufferUsages) (values : List F32) : CpuBuffer :=
  ⟨⟨values.length * 4, usages, .host⟩, F32.bytes values, values.length * 4⟩

/-- An execution of the sample graph on a row `(1, 1)` and the weights `((1, 0), (0, 1))`. -/
def projectReluRun (usages : BufferUsages) : GraphRun :=
  let one : F32 := Binary.ofBits 0x3F800000
  { host := Allocator.granting
    inputs := [bufferOf usages [one, one],
      bufferOf usages [one, Binary.zero false, Binary.zero false, one]]
    computed := [] }

theorem projectReluRun_bound (usages : BufferUsages) :
    (projectReluRun usages).Bound projectRelu := by
  refine .cons ⟨rfl, ?_⟩ (.cons ⟨rfl, ?_⟩ .nil) <;>
    · simp only [CpuBuffer.values, bufferOf, F32.words_bytes]
      decide

theorem executeF32Graph_spec_projectRelu :
    Fallible.Spec (fun run => run = projectReluRun .storage)
      (executeF32Graph 40 smallDevice projectReluGraph)
      (fun result run => run.inputs = (projectReluRun .storage).inputs ∧
        (run.computed ++ [result.output]).map CpuBuffer.values =
          projectRelu.meaning ((projectReluRun .storage).inputs.map CpuBuffer.values))
      fun e run => (IsLimit e ∨ (projectReluRun .storage).LacksStorage e) ∧
        run.inputs = (projectReluRun .storage).inputs :=
  executeF32Graph_spec 40 smallDevice projectReluGraph (projectReluRun .storage)
    (projectReluRun_bound .storage)

/-- Matching finite inputs alone do not confine the errors to limits: an input buffer without the
storage usage is refused. -/
theorem not_isLimit_of_unreadable_input :
    ¬ ∀ (handleBytes : ℕ) (device : CpuDevice) (graph : ValidatedF32GraphV1) (run₀ : GraphRun),
      run₀.Bound graph.plan →
        Fallible.Spec (fun run => run = run₀) (executeF32Graph handleBytes device graph)
          (fun _ _ => True) fun e _ => IsLimit e := by
  intro h
  have hspec := h 40 smallDevice projectReluGraph (projectReluRun .copySrc)
    (projectReluRun_bound .copySrc)
  have hrun : (executeF32Graph 40 smallDevice projectReluGraph).run (projectReluRun .copySrc) =
      (.error (.error (.unsupported "CPU graph input requires buffer usage bits 1")),
        projectReluRun .copySrc) := by
    rfl
  have hlimit := hspec.error rfl hrun
  rcases hlimit with _ | ⟨_, hrefusal⟩ | _
  · cases hrefusal

end NNIS
