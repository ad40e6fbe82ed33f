import NNIS.Cpu.Device
import NNIS.Memory.Slice
import NNIS.Semantics.Staged

/-!
# Finite-F32 reference kernels

`nnis-cpu/src/numerical.rs`. Every operation makes its checks and takes its scratch memory first,
computes the complete output into the scratch memory, and writes its destination by one copy. The
destination is part of the state; an operation may also be read as one that takes the destination
and returns it as written. Arithmetic is exact binary32 arithmetic, and every value read, every
intermediate and every result has to be finite.

## Main definitions

* `CpuF32.wordCount`, `CpuF32.valueAt`, `CpuF32.finite`, `CpuF32.Input`.
* `CpuF32KernelsV1.binaryInto`, `CpuF32KernelsV1.reluInto`, `CpuF32KernelsV1.sumInto`,
  `CpuF32KernelsV1.projectKnInto`, `CpuF32KernelsV1.gatherInto`, `CpuF32KernelsV1.scatterAddInto`.
* `CpuF32KernelsV1.binary` and the like — the same operations, returning the destination.
-/

set_option autoImplicit false

namespace NNIS

open Outcome

def cpuF32ContractVersion : ℕ := 1

def cpuF32NumericalPolicy : String := "finite-f32-le-ordered-fma-v1"

/-- Elementwise binary operation; no implicit broadcasting. -/
inductive CpuF32BinaryOp
  | add
  | multiply
  deriving DecidableEq

/-- The arithmetic of a binary operation. -/
def CpuF32BinaryOp.apply : CpuF32BinaryOp → F32 → F32 → F32
  | add => Binary.add
  | multiply => Binary.mul

/-- Operation identity recorded after successful synchronous execution. -/
inductive CpuF32Operation
  | add
  | multiply
  | relu
  | sum
  | projectKn
  | gather
  | scatterAdd
  deriving DecidableEq

/-- Successful software execution accounting. -/
structure CpuF32ReportV1 where
  schemaVersion : ℕ
  operation : CpuF32Operation
  outputValues : ℕ
  scratchPayloadBytes : ℕ
  scratchCapacityBytes : ℕ
  deriving DecidableEq

/-- An operation on the process allocator and a destination. -/
abbrev DestM (α : Type) := Fallible (Allocator × CpuBuffer) (Stop PortableError) α

namespace CpuF32

def wordCount (buffer : CpuBuffer) : Outcome PortableError ℕ := do
  requireUsage buffer .storage "CPU F32 execution"
  require (buffer.isEmpty = false ∧ buffer.len % 4 = 0)
    (.invalidDescriptor "CPU F32 buffer must contain a non-zero multiple of four bytes")
  pure (buffer.len / 4)

/-- The word at an index of a byte list. -/
def valueAt (bytes : List UInt8) (i : ℕ) : Outcome PortableError F32 := do
  let offset := i * 4
  pure (F32.ofLeBytes (← index bytes offset) (← index bytes (offset + 1))
    (← index bytes (offset + 2)) (← index bytes (offset + 3)))

/-- The error of a value that is not finite. -/
def nonFinite : PortableError :=
  .invalidDescriptor "CPU F32 input or arithmetic intermediate is non-finite"

def finite (value : F32) : Outcome PortableError F32 := do
  require (value.isFinite = true) nonFinite
  pure value

def requireEqual (actual expected : ℕ) : Outcome PortableError PUnit :=
  require (actual = expected) (.invalidDescriptor "CPU F32 shape mismatch")

def validateIndices (indices : List ℕ) (limit : ℕ) : Outcome PortableError PUnit :=
  require (indices ≠ [] ∧ ∀ i ∈ indices, i < limit)
    (.invalidDescriptor "CPU F32 index list is empty or out of range")

/-- A buffer that has been checked to hold finite values. -/
structure Input where
  buffer : CpuBuffer
  values : ℕ

namespace Input

def new (buffer : CpuBuffer) : Outcome PortableError Input := do
  let values ← wordCount buffer
  (List.range values).forM fun i => do
    let _ ← finite (← valueAt buffer.bytes i)
  pure ⟨buffer, values⟩

def len (input : Input) : ℕ := input.values

/-- The value at an index; the source's `at`. -/
def value (input : Input) (i : ℕ) : Outcome PortableError F32 := valueAt input.buffer.bytes i

end Input

end CpuF32

open CpuF32

/-- Scalar reference kernels with an explicit temporary-output payload ceiling. -/
structure CpuF32KernelsV1 where
  maxScratchBytes : ℕ
  maxScratchBytes_pos : 0 < maxScratchBytes
  maxScratchBytes_le : maxScratchBytes ≤ isizeMax

namespace CpuF32KernelsV1

/-- Set a positive representable limit for one operation's scratch payload. -/
def new (maxScratchBytes : ℕ) : Outcome PortableError CpuF32KernelsV1 :=
  if h : 0 < maxScratchBytes ∧ maxScratchBytes ≤ isizeMax then .ok ⟨maxScratchBytes, h.1, h.2⟩
  else
    raise (.invalidDescriptor "CPU F32 scratch limit must be positive and fit isize::MAX")

/-- The capacity of a scratch vector for the output. -/
def scratch (self : CpuF32KernelsV1) (output : CpuBuffer) : HostM ℕ := do
  let _ ← .ofExcept (wordCount output)
  .ofExcept (require (output.len ≤ self.maxScratchBytes)
    (.unsupported "CPU F32 output exceeds scratch payload limit"))
  reserveBytes output.len

/-! ### Operations on the destination -/

/-- Write the staged bytes to the destination; a difference in length is a panic. -/
def commitInto (scratch : List UInt8) (capacity : ℕ) (operation : CpuF32Operation) :
    DestM CpuF32ReportV1 := do
  let output ← .second
  let report : CpuF32ReportV1 :=
    { schemaVersion := cpuF32ContractVersion
      operation
      outputValues := output.len / 4
      scratchPayloadBytes := scratch.length
      scratchCapacityBytes := capacity }
  if scratch.length = output.bytes.length then
    Fallible.modify fun s => (s.1, { s.2 with bytes := scratch })
    pure report
  else .ofExcept (.error .panic)

/-- Compute every output value in order, then write them. -/
def evaluateInto (self : CpuF32KernelsV1) (values : ℕ) (operation : CpuF32Operation)
    (compute : ℕ → Outcome PortableError F32) : DestM CpuF32ReportV1 := do
  let output ← .second
  .ofExcept do requireEqual (← wordCount output) values
  let capacity ← (self.scratch output).onFirst
  let scratch ← .ofExcept <| (List.range values).foldlM (fun scratch i => do
    pure (scratch ++ (← finite (← compute i)).toLeBytes)) []
  commitInto scratch capacity operation

/-- Add or multiply equal-length vectors without broadcasting. -/
def binaryInto (self : CpuF32KernelsV1) (operation : CpuF32BinaryOp) (left right : CpuBuffer) :
    DestM CpuF32ReportV1 := do
  let left ← .ofExcept (Input.new left)
  let right ← .ofExcept (Input.new right)
  .ofExcept (requireEqual left.len right.len)
  let identity := match operation with
    | .add => CpuF32Operation.add
    | .multiply => CpuF32Operation.multiply
  self.evaluateInto left.len identity fun i => do
    pure (operation.apply (← left.value i) (← right.value i))

/-- ReLU maps negative values and both signed zeros to positive zero. -/
def reluInto (self : CpuF32KernelsV1) (input : CpuBuffer) : DestM CpuF32ReportV1 := do
  let input ← .ofExcept (Input.new input)
  self.evaluateInto input.len .relu fun i => do
    let value ← input.value i
    pure (if (Binary.zero false : F32).lt value then value else Binary.zero false)

/-- Reduce in increasing index order from `+0` using binary32 addition. -/
def sumInto (self : CpuF32KernelsV1) (input : CpuBuffer) : DestM CpuF32ReportV1 := do
  let input ← .ofExcept (Input.new input)
  self.evaluateInto 1 .sum fun _ =>
    (List.range input.len).foldlM (fun sum i => do finite (sum.add (← input.value i)))
      (Binary.zero false)

/-- Project `[1,K] x [K,N] -> [1,N]` with row-major weights, without bias. -/
def projectKnInto (self : CpuF32KernelsV1) (input weights : CpuBuffer) (k n : ℕ) :
    DestM CpuF32ReportV1 := do
  .ofExcept (require (k ≠ 0 ∧ n ≠ 0)
    (.invalidDescriptor "CPU F32 matrix dimensions must be positive"))
  let elements ← .ofExcept
    (okOr (checkedMul k n) (.invalidDescriptor "CPU F32 matrix shape overflows usize"))
  let input ← .ofExcept (Input.new input)
  let weights ← .ofExcept (Input.new weights)
  .ofExcept (requireEqual input.len k)
  .ofExcept (requireEqual weights.len elements)
  self.evaluateInto n .projectKn fun column =>
    (List.range k).foldlM (fun sum row => do
      finite ((← input.value row).mulAdd (← weights.value (row * n + column)) sum))
      (Binary.zero false)

/-- Gather selected elements in index-list order. -/
def gatherInto (self : CpuF32KernelsV1) (input : CpuBuffer) (indices : List ℕ) :
    DestM CpuF32ReportV1 := do
  let input ← .ofExcept (Input.new input)
  .ofExcept (validateIndices indices input.len)
  self.evaluateInto indices.length .gather fun i => do input.value (← index indices i)

/-- Add `source[i]` to `output[indices[i]]` in index-list order. -/
def scatterAddInto (self : CpuF32KernelsV1) (source : CpuBuffer) (indices : List ℕ) :
    DestM CpuF32ReportV1 := do
  let source ← .ofExcept (Input.new source)
  .ofExcept (requireEqual source.len indices.length)
  let output ← .second
  let old ← .ofExcept (Input.new output)
  .ofExcept (validateIndices indices old.len)
  let capacity ← (self.scratch output).onFirst
  let scratch ← .ofExcept <| indices.zipIdx.foldlM (fun scratch (destination, i) => do
    let value ← finite ((← valueAt scratch destination).add (← source.value i))
    copyAt scratch (destination * 4) value.toLeBytes) output.bytes
  commitInto scratch capacity .scatterAdd

/-! ### Operations that return the written destination -/

def evaluate (self : CpuF32KernelsV1) (output : CpuBuffer) (values : ℕ)
    (operation : CpuF32Operation) (compute : ℕ → Outcome PortableError F32) :
    HostM (CpuBuffer × CpuF32ReportV1) :=
  (self.evaluateInto values operation compute).returning output

def binary (self : CpuF32KernelsV1) (operation : CpuF32BinaryOp) (left right output : CpuBuffer) :
    HostM (CpuBuffer × CpuF32ReportV1) :=
  (self.binaryInto operation left right).returning output

def relu (self : CpuF32KernelsV1) (input output : CpuBuffer) :
    HostM (CpuBuffer × CpuF32ReportV1) :=
  (self.reluInto input).returning output

def sum (self : CpuF32KernelsV1) (input output : CpuBuffer) : HostM (CpuBuffer × CpuF32ReportV1) :=
  (self.sumInto input).returning output

def projectKn (self : CpuF32KernelsV1) (input weights output : CpuBuffer) (k n : ℕ) :
    HostM (CpuBuffer × CpuF32ReportV1) :=
  (self.projectKnInto input weights k n).returning output

def gather (self : CpuF32KernelsV1) (input : CpuBuffer) (indices : List ℕ) (output : CpuBuffer) :
    HostM (CpuBuffer × CpuF32ReportV1) :=
  (self.gatherInto input indices).returning output

def scatterAdd (self : CpuF32KernelsV1) (source : CpuBuffer) (indices : List ℕ)
    (output : CpuBuffer) : HostM (CpuBuffer × CpuF32ReportV1) :=
  (self.scatterAddInto source indices).returning output

end CpuF32KernelsV1

end NNIS
