import Mathlib.Algebra.Ring.Nat
import NNIS.Core.Portable
import NNIS.Dataflow.StraightLine
import NNIS.Numeric.Binary

/-!
# The built-in F32 graph contract

`nnis-core/src/graph.rs`. Values are numbered as inputs followed by node outputs, and every operand
must refer to an earlier value. Sizes and counts are natural numbers whose machine width matters
only where the code checks it: in its sums and products, and in the limits, which carry it. On a
64-bit host every list length and index fits the code's 64-bit counts.

The operations act on lists of single-precision words. Sums and projections start at `+0` and
proceed in increasing index order with one rounding for each step; a scatter accumulates in the
order of its index list.

## Main definitions

* `F32ShapeV1`, `F32OpV1`, `F32GraphV1`, `F32GraphLimitsV1`, `F32GraphBudgetV1`.
* `F32GraphV1.infer` — the shape, the work and the indices of an operation.
* `F32GraphV1.validateBudget`, `F32GraphV1.validate`, `ValidatedF32GraphV1`.
* `Tensor.relu`, `Tensor.sum`, `Tensor.projectKn`, `Tensor.gather`, `Tensor.scatterAdd`.
* `F32OpV1.meaning`, `F32GraphV1.meaning` — the tensors of the nodes of a graph.

## Main results

* `F32ShapeV1.bytes_eq_ok_iff`, `F32GraphV1.shapeBefore_eq_ok_iff`.
-/

set_option autoImplicit false

namespace NNIS

open Outcome

def f32GraphVersion : ℕ := 1

def f32GraphPolicy : String := "finite-f32-le-ordered-fma-v1"

namespace Graph

def invalid (message : String) : PortableError := .invalidDescriptor message

def add (a b : ℕ) : Outcome PortableError ℕ :=
  okOr (checkedAdd a b) (invalid "graph accounting overflows u64")

def mul (a b : ℕ) : Outcome PortableError ℕ :=
  okOr (checkedMul a b) (invalid "graph accounting overflows u64")

theorem add_eq_ok_iff {a b c : ℕ} : add a b = .ok c ↔ a + b = c ∧ c < wordLimit := by
  rw [add, okOr_eq_ok_iff, checkedAdd_eq_some_iff]

theorem mul_eq_ok_iff {a b c : ℕ} : mul a b = .ok c ↔ a * b = c ∧ c < wordLimit := by
  rw [mul, okOr_eq_ok_iff, checkedMul_eq_some_iff]

theorem add_of_lt {a b : ℕ} (h : a + b < wordLimit) : add a b = .ok (a + b) :=
  add_eq_ok_iff.2 ⟨rfl, h⟩

theorem mul_of_lt {a b : ℕ} (h : a * b < wordLimit) : mul a b = .ok (a * b) :=
  mul_eq_ok_iff.2 ⟨rfl, h⟩

def checkWork (work limit : ℕ) : Outcome PortableError PUnit :=
  require (work ≤ limit) (invalid "graph exceeds logical work limit")

end Graph

open NNIS.Graph

/-! ### Shapes -/

/-- Logical shape; a matrix is not interchangeable with a same-sized vector. -/
inductive F32ShapeV1
  | vector (count : ℕ)
  | matrix (rows cols : ℕ)
  deriving DecidableEq

namespace F32ShapeV1

def elements (self : F32ShapeV1) : Outcome PortableError ℕ := do
  let count ← (match self with
    | vector count => pure count
    | matrix rows cols => do
      require (rows ≠ 0 ∧ cols ≠ 0) (invalid "graph matrix dimensions must be positive")
      mul rows cols : Outcome PortableError ℕ)
  require (count ≠ 0) (invalid "graph tensor must be non-empty")
  pure count

def bytes (self : F32ShapeV1) : Outcome PortableError ℕ := do
  mul (← self.elements) 4

/-- The length of a vector; the source's `vector`. -/
def vectorCount : F32ShapeV1 → Outcome PortableError ℕ
  | vector count => pure count
  | matrix _ _ => raise (invalid "graph operation requires a vector")

/-- The exact number of elements. -/
def size : F32ShapeV1 → ℕ
  | vector count => count
  | matrix rows cols => rows * cols

/-- The exact payload bytes. -/
def payload (s : F32ShapeV1) : ℕ := s.size * 4

theorem size_le_payload (s : F32ShapeV1) : s.size ≤ s.payload :=
  Nat.le_mul_of_pos_right s.size (by decide)

theorem elements_of_lt {s : F32ShapeV1} (hpos : 0 < s.size) (hlt : s.size < wordLimit) :
    s.elements = .ok s.size := by
  cases s with
  | vector count =>
    rw [elements, Except.bind_eq_ok_iff]
    exact ⟨count, rfl, Except.bind_eq_ok_iff.2 ⟨⟨⟩, require_of _ (Nat.ne_of_gt hpos), rfl⟩⟩
  | matrix rows cols =>
    have hdims : rows ≠ 0 ∧ cols ≠ 0 := Nat.mul_ne_zero_iff.1 (Nat.ne_of_gt hpos)
    rw [elements, Except.bind_eq_ok_iff]
    refine ⟨rows * cols, Except.bind_eq_ok_iff.2 ⟨⟨⟩, require_of _ hdims, mul_of_lt hlt⟩, ?_⟩
    exact Except.bind_eq_ok_iff.2 ⟨⟨⟩, require_of _ (Nat.ne_of_gt hpos), rfl⟩

theorem eq_size_of_elements {s : F32ShapeV1} {n : ℕ} (h : s.elements = .ok n) :
    n = s.size ∧ 0 < s.size := by
  obtain ⟨count, hcount, h⟩ := Except.bind_eq_ok_iff.1 h
  obtain ⟨_, hpos, h⟩ := Except.bind_eq_ok_iff.1 h
  have hn : count = n := Except.ok.inj h
  have hsize : count = s.size := by
    cases s with
    | vector c => exact (Except.ok.inj hcount).symm
    | matrix rows cols =>
      obtain ⟨_, _, hmul⟩ := Except.bind_eq_ok_iff.1 hcount
      exact (mul_eq_ok_iff.1 hmul).1.symm
  have hne : count ≠ 0 := require_eq_ok_iff.1 hpos
  exact ⟨hn ▸ hsize, hsize ▸ Nat.pos_of_ne_zero hne⟩

/-- The bytes of a nonempty shape, if they fit 64 bits. -/
theorem bytes_eq_ok_iff {s : F32ShapeV1} {b : ℕ} :
    s.bytes = .ok b ↔ 0 < s.size ∧ b = s.payload ∧ b < wordLimit := by
  rw [bytes, Except.bind_eq_ok_iff]
  constructor
  · rintro ⟨n, hn, h⟩
    obtain ⟨rfl, hpos⟩ := eq_size_of_elements hn
    exact ⟨hpos, (mul_eq_ok_iff.1 h).1.symm, (mul_eq_ok_iff.1 h).2⟩
  · rintro ⟨hpos, rfl, hlt⟩
    exact ⟨s.size, elements_of_lt hpos (Nat.lt_of_le_of_lt s.size_le_payload hlt), mul_of_lt hlt⟩

end F32ShapeV1

/-! ### Graphs -/

/-- Explicit builtin operation. Indices are ordered. -/
inductive F32OpV1
  | add (left right : ℕ)
  | multiply (left right : ℕ)
  | relu (input : ℕ)
  | sum (input : ℕ)
  | projectKn (input weights : ℕ)
  | gather (input : ℕ) (indices : List ℕ)
  | scatterAdd (base source : ℕ) (indices : List ℕ)
  deriving DecidableEq

/-- An operation and its declared output. -/
abbrev F32NodeV1 := StraightLine.Node F32OpV1 F32ShapeV1

/-- In-memory plan. The result of a graph is the last node's output. The two slices of a plan lie
in one address space, so their lengths together fit a machine word. -/
structure F32GraphV1 where
  schemaVersion : ℕ
  numericalPolicy : String
  inputs : List F32ShapeV1
  nodes : List F32NodeV1
  length_lt : inputs.length + nodes.length < wordLimit

/-- Caller-owned admission limits, not estimates of available physical memory. -/
structure F32GraphLimitsV1 where
  maxInputs : ℕ
  maxNodes : ℕ
  maxTensorBytes : ℕ
  maxLivePayloadBytes : ℕ
  maxScratchBytes : ℕ
  maxWorkItems : ℕ
  maxTensorBytes_lt : maxTensorBytes < wordLimit
  maxLivePayloadBytes_lt : maxLivePayloadBytes < wordLimit
  maxWorkItems_lt : maxWorkItems < wordLimit

/-- Conservative retain-all-output payload bound. -/
structure F32GraphBudgetV1 where
  inputPayloadBytes : ℕ
  nodePayloadBytes : ℕ
  maxScratchPayloadBytes : ℕ
  livePayloadBoundBytes : ℕ
  workItems : ℕ
  deriving DecidableEq

namespace Graph

def tensorBytes (shape : F32ShapeV1) (limit : ℕ) : Outcome PortableError ℕ := do
  let bytes ← shape.bytes
  require (bytes ≤ limit) (invalid "graph tensor exceeds per-buffer limit")
  pure bytes

theorem tensorBytes_eq_ok_iff {shape : F32ShapeV1} {limit b : ℕ} (hlimit : limit < wordLimit) :
    tensorBytes shape limit = .ok b ↔ 0 < shape.size ∧ b = shape.payload ∧ b ≤ limit := by
  rw [tensorBytes, Except.bind_eq_ok_iff]
  constructor
  · rintro ⟨bytes, hbytes, h⟩
    obtain ⟨_, hle, h⟩ := Except.bind_eq_ok_iff.1 h
    obtain rfl : bytes = b := Except.ok.inj h
    obtain ⟨hpos, hb, -⟩ := F32ShapeV1.bytes_eq_ok_iff.1 hbytes
    exact ⟨hpos, hb, require_eq_ok_iff.1 hle⟩
  · rintro ⟨hpos, hb, hle⟩
    exact ⟨b, F32ShapeV1.bytes_eq_ok_iff.2 ⟨hpos, hb, Nat.lt_of_le_of_lt hle hlimit⟩,
      Except.bind_eq_ok_iff.2 ⟨⟨⟩, require_of _ hle, rfl⟩⟩

end Graph

namespace F32GraphV1

def shapeBefore (self : F32GraphV1) (value nodeIndex : ℕ) : Outcome PortableError F32ShapeV1 :=
  if value < self.inputs.length then index self.inputs value
  else do
    let producer := value - self.inputs.length
    require (producer < nodeIndex) (invalid "graph operand is missing, forward, cyclic or in-place")
    let node ← index self.nodes producer
    pure node.output

/-- The output shape of an operation, its work, its indices and the bound on them. -/
def infer (self : F32GraphV1) (operation : F32OpV1) (nodeIndex : ℕ) :
    Outcome PortableError (F32ShapeV1 × ℕ × List ℕ × ℕ) :=
  let shape id := self.shapeBefore id nodeIndex
  match operation with
  | .add left right | .multiply left right => do
    let left ← (← shape left).vectorCount
    require ((← shape right) = .vector left)
      (invalid "graph binary operands have different shapes")
    pure (.vector left, ← mul left 4, [], 0)
  | .relu input => do
    let count ← (← shape input).vectorCount
    pure (.vector count, ← mul count 3, [], 0)
  | .sum input => do
    let count ← (← shape input).vectorCount
    pure (.vector 1, ← add (← mul count 2) 1, [], 0)
  | .projectKn input weights => do
    let k ← (← shape input).vectorCount
    match ← shape weights with
    | .matrix rows cols => do
      require (rows = k) (invalid "graph projection K dimension mismatch")
      let work ← add (← add k (← mul (← mul rows cols) 2)) cols
      pure (.vector cols, work, [], 0)
    | .vector _ => raise (invalid "graph projection requires matrix weights")
  | .gather input indices => do
    let count ← (← shape input).vectorCount
    let selected := indices.length
    require (selected ≠ 0) (invalid "graph gather indices must be non-empty")
    pure (.vector selected, ← add count (← mul selected 2), indices, count)
  | .scatterAdd base source indices => do
    let count ← (← shape base).vectorCount
    let source ← (← shape source).vectorCount
    require (indices.length = source) (invalid "graph scatter source/index length mismatch")
    -- Base validation and copy; source validation/add; final write.
    let work ← add (← mul count 3) (← mul source 2)
    pure (.vector count, work, indices, count)

/-- The round of `validate`'s loop over the inputs. -/
def visitInput (limits : F32GraphLimitsV1) (budget : F32GraphBudgetV1) (shape : F32ShapeV1) :
    Outcome PortableError F32GraphBudgetV1 := do
  let bytes ← tensorBytes shape limits.maxTensorBytes
  let inputPayloadBytes ← add budget.inputPayloadBytes bytes
  let workItems ← add budget.workItems (← shape.elements)
  pure { budget with inputPayloadBytes, workItems }

/-- The round of `validate`'s loop over the nodes. -/
def visitNode (self : F32GraphV1) (limits : F32GraphLimitsV1) (budget : F32GraphBudgetV1)
    (entry : F32NodeV1 × ℕ) : Outcome PortableError F32GraphBudgetV1 := do
  let (node, nodeIndex) := entry
  let bytes ← tensorBytes node.output limits.maxTensorBytes
  require (bytes ≤ limits.maxScratchBytes) (invalid "graph node exceeds scratch payload limit")
  let nodePayloadBytes ← add budget.nodePayloadBytes bytes
  let maxScratchPayloadBytes := max budget.maxScratchPayloadBytes bytes
  let (expected, work, indices, indexLimit) ← self.infer node.operation nodeIndex
  require (expected = node.output) (invalid "graph output shape does not match operation")
  let workItems ← add budget.workItems (← add work indices.length)
  checkWork workItems limits.maxWorkItems
  require (∀ value ∈ indices, value < indexLimit) (invalid "graph index is out of range")
  let livePayloadBoundBytes ←
    add (← add budget.inputPayloadBytes nodePayloadBytes) maxScratchPayloadBytes
  require (livePayloadBoundBytes ≤ limits.maxLivePayloadBytes)
    (invalid "graph exceeds live payload admission limit")
  pure { budget with
    nodePayloadBytes, maxScratchPayloadBytes, workItems, livePayloadBoundBytes }

/-- The checks of `validate` and the budget that they compute. -/
def validateBudget (self : F32GraphV1) (limits : F32GraphLimitsV1) :
    Outcome PortableError F32GraphBudgetV1 := do
  require (self.schemaVersion = f32GraphVersion ∧ self.numericalPolicy = f32GraphPolicy)
    (invalid "unsupported graph schema or numerical policy")
  require (limits.maxInputs ≠ 0 ∧ limits.maxNodes ≠ 0 ∧ limits.maxTensorBytes ≠ 0 ∧
      limits.maxLivePayloadBytes ≠ 0 ∧ limits.maxScratchBytes ≠ 0 ∧ limits.maxWorkItems ≠ 0)
    (invalid "graph limits must be positive")
  require (self.inputs ≠ [] ∧ self.inputs.length ≤ limits.maxInputs ∧
      self.nodes ≠ [] ∧ self.nodes.length ≤ limits.maxNodes)
    (invalid "graph input/node count exceeds admission contract")
  let _ ← okOr (checkedAdd self.inputs.length self.nodes.length)
    (invalid "graph value count overflows usize")
  let budget ← self.inputs.foldlM (visitInput limits) ⟨0, 0, 0, 0, 0⟩
  checkWork budget.workItems limits.maxWorkItems
  self.nodes.zipIdx.foldlM (self.visitNode limits) budget

end F32GraphV1

/-- A plan with the budget that its validation computed. -/
structure ValidatedF32GraphV1 where
  plan : F32GraphV1
  budget : F32GraphBudgetV1
  validated : ∃ limits, plan.validateBudget limits = .ok budget

namespace F32GraphV1

/-- Validate every node before any backend action. -/
def validate (self : F32GraphV1) (limits : F32GraphLimitsV1) :
    Outcome PortableError ValidatedF32GraphV1 :=
  match h : self.validateBudget limits with
  | .ok budget => .ok ⟨self, budget, limits, h⟩
  | .error e => .error e

theorem validate_eq_ok_iff {self : F32GraphV1} {limits : F32GraphLimitsV1}
    {graph : ValidatedF32GraphV1} :
    self.validate limits = .ok graph ↔ graph.plan = self ∧ self.validateBudget limits =
      .ok graph.budget := by
  unfold validate
  split
  · next budget h =>
    constructor
    · rintro he
      obtain rfl := Except.ok.inj he
      exact ⟨rfl, h⟩
    · obtain ⟨plan, budget', hv⟩ := graph
      rintro ⟨rfl, hb⟩
      obtain rfl : budget = budget' := Except.ok.inj (h.symm.trans hb)
      rfl
  · next e h => exact ⟨nofun, fun hb => nomatch h.symm.trans hb.2⟩

/-- The shapes of the values before the node at an index. -/
def shapesBefore (self : F32GraphV1) (nodeIndex : ℕ) : List F32ShapeV1 :=
  StraightLine.context self.inputs (self.nodes.take nodeIndex)

/-- An operand has a shape exactly when it refers to an earlier value. -/
theorem shapeBefore_eq_ok_iff {self : F32GraphV1} {value nodeIndex : ℕ} {s : F32ShapeV1} :
    self.shapeBefore value nodeIndex = .ok s ↔ (self.shapesBefore nodeIndex)[value]? = some s := by
  unfold shapeBefore shapesBefore StraightLine.context
  split_ifs with hv
  · rw [index_eq_ok_iff, List.getElem?_append_left hv]
  · rw [List.getElem?_append_right (Nat.le_of_not_lt hv), List.getElem?_map, Option.map_eq_some_iff]
    constructor
    · intro h
      obtain ⟨_, hp, h⟩ := Except.bind_eq_ok_iff.1 h
      obtain ⟨node, hnode, h⟩ := Except.bind_eq_ok_iff.1 h
      have hp : value - self.inputs.length < nodeIndex := require_eq_ok_iff.1 hp
      refine ⟨node, ?_, Except.ok.inj h⟩
      rw [List.getElem?_take_of_lt hp]
      exact index_eq_ok_iff.1 hnode
    · rintro ⟨node, hnode, rfl⟩
      have hp : value - self.inputs.length < nodeIndex := by
        by_contra hp
        rw [List.getElem?_take_eq_none (Nat.le_of_not_lt hp)] at hnode
        exact nomatch hnode
      rw [List.getElem?_take_of_lt hp] at hnode
      exact Except.bind_eq_ok_iff.2 ⟨⟨⟩, require_of _ hp,
        Except.bind_eq_ok_iff.2 ⟨node, index_eq_ok_iff.2 hnode, rfl⟩⟩

end F32GraphV1

namespace Tensor

/-- Values above zero are kept, all others become `+0`. -/
def relu (x : F32) : F32 := if (Binary.zero false : F32).lt x then x else Binary.zero false

/-- The sum in index order. -/
def sum (xs : List F32) : F32 := xs.foldl Binary.add (Binary.zero false)

/-- The dot product of `xs` with a column of row-major weights with `n` columns. -/
def column (xs ws : List F32) (n j : ℕ) : F32 :=
  (List.range xs.length).foldl (fun sum i => xs[i]!.mulAdd ws[i * n + j]! sum) (Binary.zero false)

/-- The product of a row by row-major weights. -/
def projectKn (xs ws : List F32) : List F32 :=
  let n := ws.length / xs.length
  (List.range n).map (column xs ws n)

/-- The selected values, in the order of the indices. -/
def gather (xs : List F32) (indices : List ℕ) : List F32 := indices.map (xs[·]!)

/-- The base with each source value added at its index, in the order of the indices. -/
def scatterAdd (base source : List F32) (indices : List ℕ) : List F32 :=
  (indices.zip source).foldl (fun out entry => out.modify entry.1 (·.add entry.2)) base

end Tensor

/-- The result of an operation on the values before it. -/
def F32OpV1.meaning (env : List (List F32)) : F32OpV1 → List F32
  | add left right => List.zipWith Binary.add env[left]! env[right]!
  | multiply left right => List.zipWith Binary.mul env[left]! env[right]!
  | relu input => env[input]!.map Tensor.relu
  | sum input => [Tensor.sum env[input]!]
  | projectKn input weights => Tensor.projectKn env[input]! env[weights]!
  | gather input indices => Tensor.gather env[input]! indices
  | scatterAdd base source indices => Tensor.scatterAdd env[base]! env[source]! indices

/-- The tensors of the nodes of a graph on given inputs. -/
def F32GraphV1.meaning (self : F32GraphV1) (inputs : List (List F32)) : List (List F32) :=
  StraightLine.denote F32OpV1.meaning inputs self.nodes

end NNIS
