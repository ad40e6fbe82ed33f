import NNIS.Core.Graph
import NNIS.Cpu.Numerical

/-!
# Execution of a graph on the CPU

The retain-all-output executor of `nnis-cpu/src/graph.rs`. The state of an execution holds the
allocator, the caller's input buffers and the buffers computed so far; kernels run on the
allocator and on copies of what they read, and a node's buffer is retained when the node has
succeeded. On a 64-bit host every byte count of the code fits both `u64` and `usize`.

## Main definitions

* `GraphRun` — the state of an execution.
* `executeF32Graph`, `executeNode`, `CpuF32GraphOutputV1`.
-/

set_option autoImplicit false

namespace NNIS

open Outcome CpuF32

/-- Successful graph evidence. -/
structure CpuF32GraphReportV1 where
  schemaVersion : ℕ
  executedNodes : ℕ
  budget : F32GraphBudgetV1
  retainedNodeCapacityBytes : ℕ
  maxScratchCapacityBytes : ℕ
  nodeHandleCapacityBytes : ℕ
  deriving DecidableEq

/-- The final output and the accounting of its execution. -/
structure CpuF32GraphOutputV1 where
  output : CpuBuffer
  report : CpuF32GraphReportV1

/-- The state of an execution. -/
structure GraphRun where
  host : Allocator
  inputs : List CpuBuffer
  computed : List CpuBuffer

/-- A computation during an execution. -/
abbrev GraphM (α : Type) := Fallible GraphRun (Stop PortableError) α

namespace CpuGraph

def invalid (message : String) : PortableError := .invalidDescriptor message

/-- A computation on the host, which neither reads nor writes a buffer of the execution. -/
def onHost {α : Type} (m : HostM α) : GraphM α :=
  m.zoom GraphRun.host fun host run => { run with host }

/-- The buffer of a value: an input or a computed buffer. -/
def value (id : ℕ) (inputs computed : List CpuBuffer) : Outcome PortableError CpuBuffer :=
  if id < inputs.length then index inputs id
  else okOr computed[id - inputs.length]? (invalid "CPU graph operand is unavailable")

/-- The bytes of a shape, if the host can allocate them. -/
def hostBytes (shape : F32ShapeV1) : Outcome PortableError ℕ := do
  let bytes ← shape.bytes
  require (bytes ≤ isizeMax) (invalid "CPU graph tensor exceeds host allocation limit")
  pure bytes

/-- The check of a tensor against the device. -/
def checkTensor (device : CpuDevice) (shape : F32ShapeV1) : Outcome PortableError PUnit := do
  require ((← hostBytes shape) ≤ device.maxBufferBytes)
    (invalid "CPU graph tensor exceeds device per-buffer capability")

/-- The check of a binding against its declared shape. -/
def checkBinding (shape : F32ShapeV1) (buffer : CpuBuffer) : Outcome PortableError PUnit := do
  requireUsage buffer .storage "CPU graph input"
  require (buffer.len = (← hostBytes shape)) (invalid "CPU graph input byte length mismatch")
  require (∀ word ∈ F32.words buffer.bytes, word.isFinite = true)
    (invalid "CPU graph input contains a non-finite value")

/-- Run the kernel of an operation on a fresh output buffer. -/
def dispatch (kernels : CpuF32KernelsV1) (operation : F32OpV1) (shape : F32ShapeV1)
    (output : CpuBuffer) : GraphM (CpuBuffer × CpuF32ReportV1) := do
  let run ← .get
  let get id : GraphM CpuBuffer := .ofExcept (value id run.inputs run.computed)
  match operation with
  | .add left right => do onHost (kernels.binary .add (← get left) (← get right) output)
  | .multiply left right => do onHost (kernels.binary .multiply (← get left) (← get right) output)
  | .relu input => do onHost (kernels.relu (← get input) output)
  | .sum input => do onHost (kernels.sum (← get input) output)
  | .projectKn input weights => do
    let input ← get input
    let n := (← .ofExcept (hostBytes shape)) / 4
    onHost (kernels.projectKn input (← get weights) output (input.len / 4) n)
  | .gather input indices => do onHost (kernels.gather (← get input) indices output)
  | .scatterAdd base source indices => do
    -- New destination, not an in-place mutation of the base binding.
    let base ← get base
    .ofExcept (if base.bytes.length = output.bytes.length then .ok ⟨⟩ else .error .panic)
    let output := { output with bytes := base.bytes }
    onHost (kernels.scatterAdd (← get source) indices output)

/-- The capacity of a fresh vector with room for the handles of the node buffers. -/
def reserveHandles (nodes : ℕ) : HostM ℕ := do
  match ← tryReserveExact nodes with
  | .ok capacity => pure capacity
  | .error _ => .ofExcept (raise (invalid "CPU graph node-handle reservation failed"))

/-- Accounting of the retained and scratch capacities. -/
structure Capacities where
  retainedNodeBytes : ℕ
  maxScratchBytes : ℕ

/-- The round of a node: create its buffer, run its kernel and retain the buffer. -/
def executeNode (device : CpuDevice) (kernels : CpuF32KernelsV1) (node : F32NodeV1)
    (capacities : Capacities) : GraphM Capacities := do
  let descriptor ← .ofExcept do
    BufferDesc.new (← node.output.bytes)
      (BufferUsages.storage ||| BufferUsages.copySrc ||| BufferUsages.copyDst) .host
  let output ← onHost (device.createBuffer descriptor)
  let (output, report) ← dispatch kernels node.operation node.output output
  let retainedNodeBytes ← .ofExcept (okOr
    (checkedAdd capacities.retainedNodeBytes output.capacityBytes)
    (invalid "CPU graph capacity accounting overflows u64"))
  let maxScratchBytes := max capacities.maxScratchBytes report.scratchCapacityBytes
  .modify fun run => { run with computed := run.computed ++ [output] }
  pure ⟨retainedNodeBytes, maxScratchBytes⟩

end CpuGraph

open CpuGraph

/-- Execute a statically validated graph with immutable external inputs. The size of a buffer
handle is the compiler's choice. -/
def executeF32Graph (handleBytes : ℕ) (device : CpuDevice) (graph : ValidatedF32GraphV1) :
    GraphM CpuF32GraphOutputV1 := do
  let plan := graph.plan
  .ofExcept (require (plan.numericalPolicy = cpuF32NumericalPolicy ∧
      cpuF32NumericalPolicy = f32GraphPolicy)
    (invalid "CPU graph numerical policy is unsupported"))
  let run ← .get
  .ofExcept (require (run.inputs.length = plan.inputs.length)
    (invalid "CPU graph binding count mismatch"))
  .ofExcept ((plan.inputs ++ plan.nodes.map StraightLine.Node.output).forM (checkTensor device))
  .ofExcept ((plan.inputs.zip run.inputs).forM fun binding => checkBinding binding.1 binding.2)
  let kernels ← .ofExcept (CpuF32KernelsV1.new graph.budget.maxScratchPayloadBytes)
  .modify fun run => { run with computed := [] }
  let handles ← onHost (reserveHandles plan.nodes.length)
  let nodeHandleCapacityBytes ← .ofExcept (okOr (checkedMul handles handleBytes)
    (invalid "CPU graph node-handle capacity overflows usize"))
  let capacities ← .foldEach plan.nodes ⟨0, 0⟩ (executeNode device kernels)
  let run ← .get
  let output ← .ofExcept (okOr run.computed.getLast? (invalid "CPU graph has no output"))
  .modify fun run => { run with computed := run.computed.dropLast }
  pure
    { output
      report :=
        { schemaVersion := f32GraphVersion
          executedNodes := plan.nodes.length
          budget := graph.budget
          retainedNodeCapacityBytes := capacities.retainedNodeBytes
          maxScratchCapacityBytes := capacities.maxScratchBytes
          nodeHandleCapacityBytes } }

end NNIS
