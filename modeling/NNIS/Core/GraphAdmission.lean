import NNIS.Core.Graph
import Mathlib.Data.List.Induction

/-!
# Admission of a graph

What a graph has to satisfy to be executed within given limits, stated over unbounded natural
numbers: the operations form a well-typed straight-line program, every tensor fits its limits, and
the totals of live bytes and of work are within theirs. The checked 64-bit validation accepts
exactly these graphs, because a sum or product that leaves 64 bits already exceeds the limit on
the total of which it is a part.

## Main definitions

* `F32OpV1.HasShape` — the operands and indices of an operation and the shape of its result.
* `F32OpV1.work`, `F32GraphV1.totalPayload`, `F32GraphV1.exactBudget`.
* `F32GraphV1.Admitted`.

## Main results

* `F32GraphV1.infer_sound`, `F32GraphV1.infer_complete` — the checked inference of one operation.
* `F32GraphV1.validateBudget_eq_ok_iff`, `F32GraphV1.validate_iff_admitted` — validation accepts
  exactly the admitted graphs, with the exact budget.
-/

set_option autoImplicit false

namespace NNIS

open Outcome NNIS.Graph

/-! ### The specification -/

namespace F32OpV1

/-- The values that an operation reads, in the order of its operands. -/
def operands : F32OpV1 → List ℕ
  | add left right | multiply left right => [left, right]
  | relu input | sum input | gather input _ => [input]
  | projectKn input weights => [input, weights]
  | scatterAdd base source _ => [base, source]

/-- The indices that an operation scans. -/
def indices : F32OpV1 → List ℕ
  | gather _ indices | scatterAdd _ _ indices => indices
  | _ => []

/-- The operation reads earlier values of the right shapes, its indices are in range, and its
result has the given shape. -/
inductive HasShape (Γ : List F32ShapeV1) : F32OpV1 → F32ShapeV1 → Prop
  | add {left right n : ℕ} (hleft : Γ[left]? = some (.vector n))
      (hright : Γ[right]? = some (.vector n)) : HasShape Γ (add left right) (.vector n)
  | multiply {left right n : ℕ} (hleft : Γ[left]? = some (.vector n))
      (hright : Γ[right]? = some (.vector n)) : HasShape Γ (multiply left right) (.vector n)
  | relu {input n : ℕ} (hinput : Γ[input]? = some (.vector n)) :
      HasShape Γ (relu input) (.vector n)
  | sum {input n : ℕ} (hinput : Γ[input]? = some (.vector n)) :
      HasShape Γ (sum input) (.vector 1)
  | projectKn {input weights k n : ℕ} (hinput : Γ[input]? = some (.vector k))
      (hweights : Γ[weights]? = some (.matrix k n)) :
      HasShape Γ (projectKn input weights) (.vector n)
  | gather {input n : ℕ} {indices : List ℕ} (hinput : Γ[input]? = some (.vector n))
      (hne : indices ≠ []) (hrange : ∀ i ∈ indices, i < n) :
      HasShape Γ (gather input indices) (.vector indices.length)
  | scatterAdd {base source n : ℕ} {indices : List ℕ} (hbase : Γ[base]? = some (.vector n))
      (hsource : Γ[source]? = some (.vector indices.length)) (hrange : ∀ i ∈ indices, i < n) :
      HasShape Γ (scatterAdd base source indices) (.vector n)

/-- The number of elements of an earlier value. -/
def sizeAt (Γ : List F32ShapeV1) (value : ℕ) : ℕ := (Γ[value]?.map F32ShapeV1.size).getD 0

/-- The arithmetic, selection and copying steps of an operation, one per element. -/
def steps (Γ : List F32ShapeV1) : F32OpV1 → ℕ
  | add left _ | multiply left _ => sizeAt Γ left
  | relu input | sum input => sizeAt Γ input
  | projectKn _ weights => sizeAt Γ weights
  | gather _ indices => indices.length
  | scatterAdd base source _ => sizeAt Γ base + sizeAt Γ source

/-- The work of a node: it visits its operands, computes, scans its indices and writes its
output. -/
def work (Γ : List F32ShapeV1) (node : F32NodeV1) : ℕ :=
  (node.operation.operands.map (sizeAt Γ)).sum + node.operation.steps Γ + node.output.size +
    node.operation.indices.length

theorem sizeAt_eq {Γ : List F32ShapeV1} {value : ℕ} {s : F32ShapeV1} (h : Γ[value]? = some s) :
    sizeAt Γ value = s.size := by
  rw [sizeAt, h, Option.map_some, Option.getD_some]

/-! The work of each operation, as the code counts it. -/

section Work

variable {Γ : List F32ShapeV1} {n : ℕ}

theorem work_add {left right : ℕ} (hleft : Γ[left]? = some (.vector n))
    (hright : Γ[right]? = some (.vector n)) : work Γ ⟨add left right, .vector n⟩ = n * 4 := by
  simp only [work, operands, steps, indices, List.map_cons, List.map_nil, List.sum_cons,
    List.sum_nil, sizeAt_eq hleft, sizeAt_eq hright, F32ShapeV1.size, List.length_nil]
  omega

theorem work_multiply {left right : ℕ} (hleft : Γ[left]? = some (.vector n))
    (hright : Γ[right]? = some (.vector n)) : work Γ ⟨multiply left right, .vector n⟩ = n * 4 :=
  work_add hleft hright

theorem work_relu {input : ℕ} (hinput : Γ[input]? = some (.vector n)) :
    work Γ ⟨relu input, .vector n⟩ = n * 3 := by
  simp only [work, operands, steps, indices, List.map_cons, List.map_nil, List.sum_cons,
    List.sum_nil, sizeAt_eq hinput, F32ShapeV1.size, List.length_nil]
  omega

theorem work_sum {input : ℕ} (hinput : Γ[input]? = some (.vector n)) :
    work Γ ⟨sum input, .vector 1⟩ = n * 2 + 1 := by
  simp only [work, operands, steps, indices, List.map_cons, List.map_nil, List.sum_cons,
    List.sum_nil, sizeAt_eq hinput, F32ShapeV1.size, List.length_nil]
  omega

theorem work_projectKn {input weights k : ℕ} (hinput : Γ[input]? = some (.vector k))
    (hweights : Γ[weights]? = some (.matrix k n)) :
    work Γ ⟨projectKn input weights, .vector n⟩ = k + k * n * 2 + n := by
  simp only [work, operands, steps, indices, List.map_cons, List.map_nil, List.sum_cons,
    List.sum_nil, sizeAt_eq hinput, sizeAt_eq hweights, F32ShapeV1.size, List.length_nil]
  omega

theorem work_gather {input : ℕ} (hinput : Γ[input]? = some (.vector n)) (selection : List ℕ) :
    work Γ ⟨gather input selection, .vector selection.length⟩ =
      n + selection.length * 2 + selection.length := by
  simp only [work, operands, steps, indices, List.map_cons, List.map_nil, List.sum_cons,
    List.sum_nil, sizeAt_eq hinput, F32ShapeV1.size]
  omega

theorem work_scatterAdd {base source : ℕ} {selection : List ℕ}
    (hbase : Γ[base]? = some (.vector n))
    (hsource : Γ[source]? = some (.vector selection.length)) :
    work Γ ⟨scatterAdd base source selection, .vector n⟩ =
      n * 3 + selection.length * 2 + selection.length := by
  simp only [work, operands, steps, indices, List.map_cons, List.map_nil, List.sum_cons,
    List.sum_nil, sizeAt_eq hbase, sizeAt_eq hsource, F32ShapeV1.size]
  omega

end Work

end F32OpV1

namespace F32GraphV1

/-- The total payload of some tensors. -/
def totalPayload (shapes : List F32ShapeV1) : ℕ := (shapes.map F32ShapeV1.payload).sum

/-- The largest payload of some tensors. -/
def maxPayload (shapes : List F32ShapeV1) : ℕ := (shapes.map F32ShapeV1.payload).foldl max 0

/-- The exact totals over the inputs and some nodes. -/
def tally (inputs : List F32ShapeV1) (nodes : List F32NodeV1) : F32GraphBudgetV1 where
  inputPayloadBytes := totalPayload inputs
  nodePayloadBytes := totalPayload (nodes.map StraightLine.Node.output)
  maxScratchPayloadBytes := maxPayload (nodes.map StraightLine.Node.output)
  livePayloadBoundBytes := totalPayload inputs + totalPayload (nodes.map StraightLine.Node.output) +
    maxPayload (nodes.map StraightLine.Node.output)
  workItems := (inputs.map F32ShapeV1.size).sum + StraightLine.cost F32OpV1.work inputs nodes

/-- The exact budget of a graph. -/
def exactBudget (self : F32GraphV1) : F32GraphBudgetV1 := tally self.inputs self.nodes

/-- The graph can be executed within the limits. -/
structure Admitted (plan : F32GraphV1) (limits : F32GraphLimitsV1) : Prop where
  version : plan.schemaVersion = f32GraphVersion
  policy : plan.numericalPolicy = f32GraphPolicy
  limits_ne_zero : limits.maxInputs ≠ 0 ∧ limits.maxNodes ≠ 0 ∧ limits.maxTensorBytes ≠ 0 ∧
    limits.maxLivePayloadBytes ≠ 0 ∧ limits.maxScratchBytes ≠ 0 ∧ limits.maxWorkItems ≠ 0
  inputs_ne_nil : plan.inputs ≠ []
  length_inputs_le : plan.inputs.length ≤ limits.maxInputs
  nodes_ne_nil : plan.nodes ≠ []
  length_nodes_le : plan.nodes.length ≤ limits.maxNodes
  inputs_fit : ∀ s ∈ plan.inputs, 0 < s.size ∧ s.payload ≤ limits.maxTensorBytes
  nodes_fit : ∀ node ∈ plan.nodes, 0 < node.output.size ∧
    node.output.payload ≤ limits.maxTensorBytes ∧ node.output.payload ≤ limits.maxScratchBytes
  wellTyped : StraightLine.WellTyped F32OpV1.HasShape plan.inputs plan.nodes
  live_le : plan.exactBudget.livePayloadBoundBytes ≤ limits.maxLivePayloadBytes
  work_le : plan.exactBudget.workItems ≤ limits.maxWorkItems

/-! ### One operation -/

variable {self : F32GraphV1} {limits : F32GraphLimitsV1}

private theorem vectorCount_eq_ok_iff {s : F32ShapeV1} {n : ℕ} :
    s.vectorCount = .ok n ↔ s = .vector n := by
  cases s with
  | vector count =>
    exact ⟨fun h => congrArg _ (Except.ok.inj h), fun h => congrArg _ (F32ShapeV1.vector.inj h)⟩
  | matrix rows cols => exact ⟨nofun, nofun⟩

/-- What inference returns is the shape of the operation and, with the scan of the indices, its
exact work. -/
theorem infer_sound {op : F32OpV1} {nodeIndex : ℕ} {σ : F32ShapeV1} {work bound : ℕ}
    {indices : List ℕ} (h : self.infer op nodeIndex = .ok (σ, work, indices, bound))
    (hrange : ∀ i ∈ indices, i < bound) :
    op.HasShape (self.shapesBefore nodeIndex) σ ∧
      work + indices.length = F32OpV1.work (self.shapesBefore nodeIndex) ⟨op, σ⟩ := by
  cases op with
  | add left right =>
    simp only [infer, Except.bind_eq_ok_iff, Except.pure_eq_ok_iff, shapeBefore_eq_ok_iff,
      vectorCount_eq_ok_iff, require_eq_ok_iff, mul_eq_ok_iff] at h
    obtain ⟨_, hleft, n, rfl, _, hright, _, rfl, _, ⟨rfl, -⟩, he⟩ := h
    cases he
    exact ⟨.add hleft hright, (F32OpV1.work_add hleft hright).symm⟩
  | multiply left right =>
    simp only [infer, Except.bind_eq_ok_iff, Except.pure_eq_ok_iff, shapeBefore_eq_ok_iff,
      vectorCount_eq_ok_iff, require_eq_ok_iff, mul_eq_ok_iff] at h
    obtain ⟨_, hleft, n, rfl, _, hright, _, rfl, _, ⟨rfl, -⟩, he⟩ := h
    cases he
    exact ⟨.multiply hleft hright, (F32OpV1.work_multiply hleft hright).symm⟩
  | relu input =>
    simp only [infer, Except.bind_eq_ok_iff, Except.pure_eq_ok_iff, shapeBefore_eq_ok_iff,
      vectorCount_eq_ok_iff, mul_eq_ok_iff] at h
    obtain ⟨_, hinput, n, rfl, _, ⟨rfl, -⟩, he⟩ := h
    cases he
    exact ⟨.relu hinput, (F32OpV1.work_relu hinput).symm⟩
  | sum input =>
    simp only [infer, Except.bind_eq_ok_iff, Except.pure_eq_ok_iff, shapeBefore_eq_ok_iff,
      vectorCount_eq_ok_iff, mul_eq_ok_iff, add_eq_ok_iff] at h
    obtain ⟨_, hinput, n, rfl, _, ⟨rfl, -⟩, _, ⟨rfl, -⟩, he⟩ := h
    cases he
    exact ⟨.sum hinput, (F32OpV1.work_sum hinput).symm⟩
  | projectKn input weights =>
    simp only [infer, Except.bind_eq_ok_iff, shapeBefore_eq_ok_iff, vectorCount_eq_ok_iff] at h
    obtain ⟨_, hinput, k, rfl, shape, hweights, h⟩ := h
    cases shape with
    | vector n => exact (raise_eq_ok_iff.1 h).elim
    | matrix rows cols =>
      simp only [Except.bind_eq_ok_iff, Except.pure_eq_ok_iff, require_eq_ok_iff, mul_eq_ok_iff,
        add_eq_ok_iff] at h
      obtain ⟨_, rfl, _, ⟨rfl, -⟩, _, ⟨rfl, -⟩, _, ⟨rfl, -⟩, _, ⟨rfl, -⟩, he⟩ := h
      cases he
      exact ⟨.projectKn hinput hweights, (F32OpV1.work_projectKn hinput hweights).symm⟩
  | gather input selection =>
    simp only [infer, Except.bind_eq_ok_iff, Except.pure_eq_ok_iff, shapeBefore_eq_ok_iff,
      vectorCount_eq_ok_iff, require_eq_ok_iff, mul_eq_ok_iff, add_eq_ok_iff] at h
    obtain ⟨_, hinput, n, rfl, _, hne, _, ⟨rfl, -⟩, _, ⟨rfl, -⟩, he⟩ := h
    cases he
    exact ⟨.gather hinput (List.ne_nil_of_length_pos (Nat.pos_of_ne_zero hne)) hrange,
      (F32OpV1.work_gather hinput _).symm⟩
  | scatterAdd base source selection =>
    simp only [infer, Except.bind_eq_ok_iff, Except.pure_eq_ok_iff, shapeBefore_eq_ok_iff,
      vectorCount_eq_ok_iff, require_eq_ok_iff, mul_eq_ok_iff, add_eq_ok_iff] at h
    obtain ⟨_, hbase, n, rfl, _, hsource, _, rfl, _, rfl, _, ⟨rfl, -⟩, _, ⟨rfl, -⟩, _, ⟨rfl, -⟩,
      he⟩ := h
    cases he
    exact ⟨.scatterAdd hbase hsource hrange, (F32OpV1.work_scatterAdd hbase hsource).symm⟩

/-- Inference returns on a well-formed operation whose exact work fits 64 bits. -/
theorem infer_complete {op : F32OpV1} {nodeIndex : ℕ} {σ : F32ShapeV1}
    (h : op.HasShape (self.shapesBefore nodeIndex) σ)
    (hlt : F32OpV1.work (self.shapesBefore nodeIndex) ⟨op, σ⟩ < wordLimit) :
    ∃ work indices bound, self.infer op nodeIndex = .ok (σ, work, indices, bound) ∧
      ∀ i ∈ indices, i < bound := by
  cases h with
  | @add left right n hleft hright =>
    rw [F32OpV1.work_add hleft hright] at hlt
    refine ⟨n * 4, [], 0, ?_, nofun⟩
    simp only [infer, Except.bind_eq_ok_iff, Except.pure_eq_ok_iff, shapeBefore_eq_ok_iff,
      vectorCount_eq_ok_iff, require_eq_ok_iff, mul_eq_ok_iff]
    exact ⟨_, hleft, n, rfl, _, hright, ⟨⟩, rfl, _, ⟨rfl, hlt⟩, rfl⟩
  | @multiply left right n hleft hright =>
    rw [F32OpV1.work_multiply hleft hright] at hlt
    refine ⟨n * 4, [], 0, ?_, nofun⟩
    simp only [infer, Except.bind_eq_ok_iff, Except.pure_eq_ok_iff, shapeBefore_eq_ok_iff,
      vectorCount_eq_ok_iff, require_eq_ok_iff, mul_eq_ok_iff]
    exact ⟨_, hleft, n, rfl, _, hright, ⟨⟩, rfl, _, ⟨rfl, hlt⟩, rfl⟩
  | @relu input n hinput =>
    rw [F32OpV1.work_relu hinput] at hlt
    refine ⟨n * 3, [], 0, ?_, nofun⟩
    simp only [infer, Except.bind_eq_ok_iff, Except.pure_eq_ok_iff, shapeBefore_eq_ok_iff,
      vectorCount_eq_ok_iff, mul_eq_ok_iff]
    exact ⟨_, hinput, n, rfl, _, ⟨rfl, hlt⟩, rfl⟩
  | @sum input n hinput =>
    rw [F32OpV1.work_sum hinput] at hlt
    refine ⟨n * 2 + 1, [], 0, ?_, nofun⟩
    simp only [infer, Except.bind_eq_ok_iff, Except.pure_eq_ok_iff, shapeBefore_eq_ok_iff,
      vectorCount_eq_ok_iff, mul_eq_ok_iff, add_eq_ok_iff]
    exact ⟨_, hinput, n, rfl, _, ⟨rfl, by omega⟩, _, ⟨rfl, hlt⟩, rfl⟩
  | @projectKn input weights k n hinput hweights =>
    rw [F32OpV1.work_projectKn hinput hweights] at hlt
    refine ⟨k + k * n * 2 + n, [], 0, ?_, nofun⟩
    simp only [infer, Except.bind_eq_ok_iff, shapeBefore_eq_ok_iff, vectorCount_eq_ok_iff]
    refine ⟨_, hinput, k, rfl, _, hweights, ?_⟩
    simp only [Except.bind_eq_ok_iff, Except.pure_eq_ok_iff, require_eq_ok_iff, mul_eq_ok_iff,
      add_eq_ok_iff]
    exact ⟨⟨⟩, trivial, _, ⟨rfl, by omega⟩, _, ⟨rfl, by omega⟩, _, ⟨rfl, by omega⟩, _, ⟨rfl, hlt⟩,
      rfl⟩
  | @gather input n selection hinput hne hrange =>
    rw [F32OpV1.work_gather hinput] at hlt
    refine ⟨n + selection.length * 2, selection, n, ?_, hrange⟩
    simp only [infer, Except.bind_eq_ok_iff, Except.pure_eq_ok_iff, shapeBefore_eq_ok_iff,
      vectorCount_eq_ok_iff, require_eq_ok_iff, mul_eq_ok_iff, add_eq_ok_iff]
    exact ⟨_, hinput, n, rfl, ⟨⟩, Nat.ne_of_gt (List.length_pos_of_ne_nil hne), _,
      ⟨rfl, by omega⟩, _, ⟨rfl, by omega⟩, rfl⟩
  | @scatterAdd base source n selection hbase hsource hrange =>
    rw [F32OpV1.work_scatterAdd hbase hsource] at hlt
    refine ⟨n * 3 + selection.length * 2, selection, n, ?_, hrange⟩
    simp only [infer, Except.bind_eq_ok_iff, Except.pure_eq_ok_iff, shapeBefore_eq_ok_iff,
      vectorCount_eq_ok_iff, require_eq_ok_iff, mul_eq_ok_iff, add_eq_ok_iff]
    exact ⟨_, hbase, n, rfl, _, hsource, _, rfl, ⟨⟩, rfl, _, ⟨rfl, by omega⟩, _, ⟨rfl, by omega⟩,
      _, ⟨rfl, by omega⟩, rfl⟩

/-! ### The loops -/

theorem totalPayload_concat (shapes : List F32ShapeV1) (s : F32ShapeV1) :
    totalPayload (shapes ++ [s]) = totalPayload shapes + s.payload := by
  rw [totalPayload, totalPayload, List.map_append, List.sum_append, List.map_singleton,
    List.sum_singleton]

theorem maxPayload_concat (shapes : List F32ShapeV1) (s : F32ShapeV1) :
    maxPayload (shapes ++ [s]) = max (maxPayload shapes) s.payload := by
  rw [maxPayload, maxPayload, List.map_append, List.foldl_append, List.map_singleton,
    List.foldl_cons, List.foldl_nil]

theorem payload_le_maxPayload {shapes : List F32ShapeV1} {s : F32ShapeV1} (h : s ∈ shapes) :
    s.payload ≤ maxPayload shapes := by
  induction shapes using List.reverseRecOn with
  | nil => exact nomatch h
  | append_singleton shapes last ih =>
    rw [maxPayload_concat]
    rcases List.mem_append.1 h with h | h
    · exact Nat.le_trans (ih h) (Nat.le_max_left _ _)
    · exact List.mem_singleton.1 h ▸ Nat.le_max_right _ _

theorem maxPayload_le {shapes : List F32ShapeV1} {n : ℕ} (h : ∀ s ∈ shapes, s.payload ≤ n) :
    maxPayload shapes ≤ n := by
  induction shapes using List.reverseRecOn with
  | nil => exact Nat.zero_le n
  | append_singleton shapes last ih =>
    rw [List.forall_mem_append, List.forall_mem_singleton] at h
    rw [maxPayload_concat]
    exact Nat.max_le.2 ⟨ih h.1, h.2⟩

/-- The loop over the inputs returns exactly when every input fits its limit and the totals fit
64 bits. -/
theorem foldlM_visitInput_eq_ok_iff {shapes : List F32ShapeV1} {budget : F32GraphBudgetV1} :
    shapes.foldlM (visitInput limits) ⟨0, 0, 0, 0, 0⟩ = .ok budget ↔
      (∀ s ∈ shapes, 0 < s.size ∧ s.payload ≤ limits.maxTensorBytes) ∧
        totalPayload shapes < wordLimit ∧ (shapes.map F32ShapeV1.size).sum < wordLimit ∧
        budget = ⟨totalPayload shapes, 0, 0, 0, (shapes.map F32ShapeV1.size).sum⟩ := by
  induction shapes using List.reverseRecOn generalizing budget with
  | nil =>
    rw [List.foldlM_nil, Except.pure_eq_ok_iff]
    exact ⟨fun h => ⟨nofun, by decide, by decide, h.symm⟩, fun h => h.2.2.2.symm⟩
  | append_singleton shapes s ih =>
    rw [List.foldlM_append, Except.bind_eq_ok_iff, totalPayload_concat, List.map_append,
      List.sum_append, List.map_singleton, List.sum_singleton, List.forall_mem_append,
      List.forall_mem_singleton]
    simp only [ih, List.foldlM_cons, List.foldlM_nil, bind_pure, visitInput,
      Except.bind_eq_ok_iff, Except.pure_eq_ok_iff, tensorBytes_eq_ok_iff limits.maxTensorBytes_lt,
      add_eq_ok_iff]
    constructor
    · rintro ⟨_, ⟨hfit, hpayload, hwork, rfl⟩, _, ⟨hpos, rfl, hle⟩, _, ⟨rfl, hadd⟩, _, helements,
        _, ⟨rfl, hwork'⟩, rfl⟩
      obtain ⟨rfl, -⟩ := F32ShapeV1.eq_size_of_elements helements
      exact ⟨⟨hfit, hpos, hle⟩, hadd, hwork', rfl⟩
    · rintro ⟨⟨hfit, hpos, hle⟩, hpayload, hwork, rfl⟩
      exact ⟨_, ⟨hfit, by omega, by omega, rfl⟩, _, ⟨hpos, rfl, hle⟩, _, ⟨rfl, hpayload⟩, _,
        F32ShapeV1.elements_of_lt hpos (by omega), _, ⟨rfl, hwork⟩, rfl⟩

/-- The round of a node returns exactly when the node fits the limits, is well formed over the
values before it, and the totals including it are within their limits. -/
theorem visitNode_eq_ok_iff {budget budget' : F32GraphBudgetV1} {node : F32NodeV1}
    {nodeIndex : ℕ} :
    self.visitNode limits budget (node, nodeIndex) = .ok budget' ↔
      (0 < node.output.size ∧ node.output.payload ≤ limits.maxTensorBytes ∧
        node.output.payload ≤ limits.maxScratchBytes) ∧
      node.operation.HasShape (self.shapesBefore nodeIndex) node.output ∧
      budget.workItems + F32OpV1.work (self.shapesBefore nodeIndex) node ≤ limits.maxWorkItems ∧
      budget.inputPayloadBytes + (budget.nodePayloadBytes + node.output.payload) +
        max budget.maxScratchPayloadBytes node.output.payload ≤ limits.maxLivePayloadBytes ∧
      budget' =
        { inputPayloadBytes := budget.inputPayloadBytes
          nodePayloadBytes := budget.nodePayloadBytes + node.output.payload
          maxScratchPayloadBytes := max budget.maxScratchPayloadBytes node.output.payload
          livePayloadBoundBytes :=
            budget.inputPayloadBytes + (budget.nodePayloadBytes + node.output.payload) +
              max budget.maxScratchPayloadBytes node.output.payload
          workItems := budget.workItems + F32OpV1.work (self.shapesBefore nodeIndex) node } := by
  obtain ⟨operation, output⟩ := node
  have hmaxWork := limits.maxWorkItems_lt
  have hmaxLive := limits.maxLivePayloadBytes_lt
  simp only [visitNode, checkWork, Except.bind_eq_ok_iff, Except.pure_eq_ok_iff,
    tensorBytes_eq_ok_iff limits.maxTensorBytes_lt, require_eq_ok_iff, add_eq_ok_iff]
  constructor
  · rintro ⟨_, ⟨hpos, rfl, htensor⟩, _, hscratch, _, ⟨rfl, -⟩, ⟨σ, work, indices, bound⟩, hinfer, _,
      rfl, _, ⟨rfl, -⟩, _, ⟨rfl, -⟩, _, hwork, _, hrange, _, ⟨rfl, -⟩, _, ⟨rfl, -⟩, _, hlive, rfl⟩
    obtain ⟨hshape, hw⟩ := infer_sound hinfer hrange
    dsimp only at hwork ⊢
    rw [hw] at hwork ⊢
    exact ⟨⟨hpos, htensor, hscratch⟩, hshape, hwork, hlive, rfl⟩
  · rintro ⟨⟨hpos, htensor, hscratch⟩, hshape, hwork, hlive, rfl⟩
    obtain ⟨work, indices, bound, hinfer, hrange⟩ := infer_complete hshape (by omega)
    have hw : work + indices.length = _ := (infer_sound hinfer hrange).2
    rw [← hw] at hwork ⊢
    have hnode : work + indices.length < wordLimit := by omega
    have htotal : budget.workItems + (work + indices.length) < wordLimit := by omega
    exact ⟨_, ⟨hpos, rfl, htensor⟩, ⟨⟩, hscratch, _, ⟨rfl, by omega⟩, ⟨_, work, indices, bound⟩,
      hinfer, ⟨⟩, rfl, _, ⟨rfl, hnode⟩, _, ⟨rfl, htotal⟩, ⟨⟩, hwork, ⟨⟩, hrange, _,
      ⟨rfl, by omega⟩, _, ⟨rfl, by omega⟩, ⟨⟩, hlive, rfl⟩

/-- The totals over the nodes visited so far, with the live bound not yet set before the first. -/
private def progress (inputs : List F32ShapeV1) (nodes : List F32NodeV1) : F32GraphBudgetV1 :=
  { tally inputs nodes with
    livePayloadBoundBytes :=
      if nodes = [] then 0 else (tally inputs nodes).livePayloadBoundBytes }

private theorem progress_of_ne_nil (inputs : List F32ShapeV1) {nodes : List F32NodeV1}
    (h : nodes ≠ []) : progress inputs nodes = tally inputs nodes := by
  rw [progress, if_neg h]

theorem tally_concat (inputs : List F32ShapeV1) (nodes : List F32NodeV1) (node : F32NodeV1) :
    tally inputs (nodes ++ [node]) =
      { inputPayloadBytes := (tally inputs nodes).inputPayloadBytes
        nodePayloadBytes := (tally inputs nodes).nodePayloadBytes + node.output.payload
        maxScratchPayloadBytes :=
          max (tally inputs nodes).maxScratchPayloadBytes node.output.payload
        livePayloadBoundBytes := (tally inputs nodes).inputPayloadBytes +
          ((tally inputs nodes).nodePayloadBytes + node.output.payload) +
            max (tally inputs nodes).maxScratchPayloadBytes node.output.payload
        workItems := (tally inputs nodes).workItems +
          F32OpV1.work (StraightLine.context inputs nodes) node } := by
  simp only [tally, List.map_append, List.map_singleton, totalPayload_concat, maxPayload_concat,
    StraightLine.cost_concat, Nat.add_assoc]

/-- The totals grow from node to node. -/
theorem tally_le_concat (inputs : List F32ShapeV1) (nodes : List F32NodeV1) (node : F32NodeV1) :
    (tally inputs nodes).livePayloadBoundBytes ≤
        (tally inputs (nodes ++ [node])).livePayloadBoundBytes ∧
      (tally inputs nodes).workItems ≤ (tally inputs (nodes ++ [node])).workItems := by
  rw [tally_concat]
  constructor
  · change (tally inputs nodes).inputPayloadBytes + (tally inputs nodes).nodePayloadBytes +
      (tally inputs nodes).maxScratchPayloadBytes ≤ _
    dsimp only
    omega
  · exact Nat.le_add_right _ _

/-- The loop over the nodes returns exactly when every node fits and is well formed and, unless
there is no node, the totals are within their limits. -/
theorem foldlM_visitNode_eq_ok_iff {budget : F32GraphBudgetV1} (nodes : List F32NodeV1)
    (hpre : nodes <+: self.nodes) :
    nodes.zipIdx.foldlM (self.visitNode limits) (progress self.inputs []) = .ok budget ↔
      (∀ node ∈ nodes, 0 < node.output.size ∧ node.output.payload ≤ limits.maxTensorBytes ∧
        node.output.payload ≤ limits.maxScratchBytes) ∧
      StraightLine.WellTyped F32OpV1.HasShape self.inputs nodes ∧
      (nodes ≠ [] → (tally self.inputs nodes).workItems ≤ limits.maxWorkItems ∧
        (tally self.inputs nodes).livePayloadBoundBytes ≤ limits.maxLivePayloadBytes) ∧
      budget = progress self.inputs nodes := by
  induction nodes using List.reverseRecOn generalizing budget with
  | nil =>
    rw [List.zipIdx_nil, List.foldlM_nil, Except.pure_eq_ok_iff]
    exact ⟨fun h => ⟨nofun, trivial, fun hne => absurd rfl hne, h.symm⟩, fun h => h.2.2.2.symm⟩
  | append_singleton nodes node ih =>
    have hbefore : nodes <+: self.nodes := (List.prefix_append nodes [node]).trans hpre
    have hshapes : self.shapesBefore nodes.length = StraightLine.context self.inputs nodes := by
      rw [shapesBefore, ← List.prefix_iff_eq_take.1 hbefore]
    have hne : nodes ++ [node] ≠ [] := List.append_ne_nil_of_right_ne_nil _ (List.cons_ne_nil _ _)
    obtain ⟨hlive, hwork⟩ := tally_le_concat self.inputs nodes node
    rw [List.zipIdx_append, List.foldlM_append, Except.bind_eq_ok_iff, List.zipIdx_singleton,
      List.forall_mem_append, List.forall_mem_singleton, StraightLine.wellTyped_concat,
      progress_of_ne_nil self.inputs hne]
    simp only [ih hbefore, List.foldlM_cons, List.foldlM_nil, bind_pure, Nat.zero_add,
      visitNode_eq_ok_iff, hshapes]
    constructor
    · rintro ⟨_, ⟨hfit, htyped, -, rfl⟩, hnode, hshape, hw, hl, rfl⟩
      refine ⟨⟨hfit, hnode⟩, ⟨htyped, hshape⟩, fun _ => ?_, ?_⟩
      · rw [tally_concat]
        exact ⟨hw, hl⟩
      · rw [tally_concat]
        rfl
    · rintro ⟨⟨hfit, hnode⟩, ⟨htyped, hshape⟩, htotals, rfl⟩
      obtain ⟨hw, hl⟩ := htotals hne
      refine ⟨_, ⟨hfit, htyped, fun _ => ⟨Nat.le_trans hwork hw, Nat.le_trans hlive hl⟩, rfl⟩,
        hnode, hshape, ?_⟩
      rw [tally_concat] at hw hl ⊢
      exact ⟨hw, hl, rfl⟩

/-- The checks of the validation hold exactly for the admitted graphs, and compute the exact
budget. -/
theorem validateBudget_eq_ok_iff {budget : F32GraphBudgetV1} :
    self.validateBudget limits = .ok budget ↔
      self.Admitted limits ∧ budget = self.exactBudget := by
  have hcount : checkedAdd self.inputs.length self.nodes.length = some _ :=
    checkedAdd_of_lt self.length_lt
  have hmaxWork := limits.maxWorkItems_lt
  have hmaxLive := limits.maxLivePayloadBytes_lt
  simp only [validateBudget, hcount, checkWork, okOr, Except.ok_bind, Except.bind_eq_ok_iff,
    require_eq_ok_iff, foldlM_visitInput_eq_ok_iff]
  constructor
  · rintro ⟨_, ⟨hversion, hpolicy⟩, _, hlimits, _, ⟨hinputs, hlenInputs, hnodes, hlenNodes⟩, _,
      ⟨hfitInputs, -, -, rfl⟩, _, -, hloop⟩
    obtain ⟨hfitNodes, htyped, htotals, rfl⟩ :=
      (foldlM_visitNode_eq_ok_iff self.nodes List.prefix_rfl).1 hloop
    rw [progress_of_ne_nil self.inputs hnodes]
    exact ⟨⟨hversion, hpolicy, hlimits, hinputs, hlenInputs, hnodes, hlenNodes,
      hfitInputs, hfitNodes, htyped, (htotals hnodes).2, (htotals hnodes).1⟩, rfl⟩
  · rintro ⟨h, rfl⟩
    have hlive : totalPayload self.inputs + _ + _ ≤ limits.maxLivePayloadBytes := h.live_le
    have hwork : (self.inputs.map F32ShapeV1.size).sum + _ ≤ limits.maxWorkItems := h.work_le
    refine ⟨⟨⟩, ⟨h.version, h.policy⟩, ⟨⟩, h.limits_ne_zero, ⟨⟩,
      ⟨h.inputs_ne_nil, h.length_inputs_le, h.nodes_ne_nil, h.length_nodes_le⟩, _,
      ⟨h.inputs_fit, by omega, by omega, rfl⟩, ⟨⟩, Nat.le_trans (Nat.le_add_right _ _) hwork, ?_⟩
    exact (foldlM_visitNode_eq_ok_iff self.nodes List.prefix_rfl).2 ⟨h.nodes_fit, h.wellTyped,
      fun _ => ⟨h.work_le, h.live_le⟩, (progress_of_ne_nil self.inputs h.nodes_ne_nil).symm⟩

/-- Validation accepts exactly the graphs that are admitted within the limits, with the exact
totals as their budget. -/
theorem validate_iff_admitted (self : F32GraphV1) (limits : F32GraphLimitsV1)
    (budget : F32GraphBudgetV1) :
    (∃ graph, self.validate limits = .ok graph ∧ graph.plan = self ∧ graph.budget = budget) ↔
      self.Admitted limits ∧ budget = self.exactBudget := by
  rw [← validateBudget_eq_ok_iff]
  constructor
  · rintro ⟨graph, h, -, rfl⟩
    exact (validate_eq_ok_iff.1 h).2
  · intro h
    exact ⟨⟨self, budget, limits, h⟩, validate_eq_ok_iff.2 ⟨rfl, h⟩, rfl, rfl⟩

/-! ### A sample graph -/

end F32GraphV1

/-- A projection of a vector by a square matrix, followed by a ReLU. -/
def projectRelu : F32GraphV1 where
  schemaVersion := f32GraphVersion
  numericalPolicy := f32GraphPolicy
  inputs := [.vector 2, .matrix 2 2]
  nodes := [⟨.projectKn 0 1, .vector 2⟩, ⟨.relu 2, .vector 2⟩]
  length_lt := by decide

/-- The smallest limits that admit the sample. -/
def projectReluLimits : F32GraphLimitsV1 where
  maxInputs := 2
  maxNodes := 2
  maxTensorBytes := 16
  maxLivePayloadBytes := 48
  maxScratchBytes := 8
  maxWorkItems := 24
  maxTensorBytes_lt := by decide
  maxLivePayloadBytes_lt := by decide
  maxWorkItems_lt := by decide

example : projectRelu.validateBudget projectReluLimits = .ok ⟨24, 16, 8, 48, 24⟩ := by decide

end NNIS
