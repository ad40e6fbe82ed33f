import NNIS.Semantics.Checked
import NNIS.Semantics.Outcome

/-!
# The portable device contract

Errors, buffer descriptors and checked accounting of `nnis-core/src/lib.rs`, as far as the
reference backend uses them.

## Main definitions

* `PortableError`, `PortableError.text`.
* `MemoryClass`, `BufferUsages`, `BufferDesc`, `BufferDesc.new`.
-/

set_option autoImplicit false

namespace NNIS

/-- Portable-runtime error independent of vendor error codes. -/
inductive PortableError
  | invalidDescriptor (message : String)
  | outOfBounds (offsetBytes sizeBytes bufferBytes : ℕ)
  | unsupported (message : String)
  | backend (message : String)
  deriving DecidableEq

/-- The text of an error. -/
def PortableError.text : PortableError → String
  | invalidDescriptor message => message
  | outOfBounds offsetBytes sizeBytes bufferBytes =>
    s!"range offset={offsetBytes} size={sizeBytes} exceeds buffer size {bufferBytes}"
  | unsupported message => "unsupported operation: " ++ message
  | backend message => "backend error: " ++ message

/-- Logical memory class independent of a vendor allocation API. -/
inductive MemoryClass
  | host
  | shared
  | deviceLocal
  deriving DecidableEq

/-- Combinable buffer usage flags. -/
structure BufferUsages where
  bits : UInt32
  deriving DecidableEq

namespace BufferUsages

def empty : BufferUsages := ⟨0⟩
def storage : BufferUsages := ⟨(1 : UInt32) <<< 0⟩
def uniform : BufferUsages := ⟨(1 : UInt32) <<< 1⟩
def copySrc : BufferUsages := ⟨(1 : UInt32) <<< 2⟩
def copyDst : BufferUsages := ⟨(1 : UInt32) <<< 3⟩

/-- Every requested usage bit is present. -/
def contains (self other : BufferUsages) : Bool := self.bits &&& other.bits == other.bits

/-- No usage bit is set. -/
def isEmpty (self : BufferUsages) : Bool := self.bits == 0

instance : OrOp BufferUsages := ⟨fun a b => ⟨a.bits ||| b.bits⟩⟩

end BufferUsages

/-- Backend-neutral buffer allocation descriptor. -/
structure BufferDesc where
  sizeBytes : ℕ
  usages : BufferUsages
  memory : MemoryClass
  deriving DecidableEq

namespace BufferDesc

/-- Revalidate the descriptor at a backend boundary. -/
def validate (self : BufferDesc) : Outcome PortableError BufferDesc :=
  if self.sizeBytes = 0 then
    Outcome.raise (.invalidDescriptor "buffer size must be non-zero")
  else if self.usages.isEmpty then
    Outcome.raise (.invalidDescriptor "buffer usage set must not be empty")
  else .ok self

/-- Construct a non-empty buffer descriptor with at least one declared usage. -/
def new (sizeBytes : ℕ) (usages : BufferUsages) (memory : MemoryClass) :
    Outcome PortableError BufferDesc :=
  validate ⟨sizeBytes, usages, memory⟩

theorem new_of_ne {sizeBytes : ℕ} {usages : BufferUsages} (memory : MemoryClass)
    (hsize : sizeBytes ≠ 0) (husages : usages.isEmpty = false) :
    new sizeBytes usages memory = .ok ⟨sizeBytes, usages, memory⟩ := by
  rw [new, validate, if_neg hsize, if_neg (by rw [husages]; exact Bool.false_ne_true)]

/-- A constructed descriptor is the one that was asked for. -/
theorem eq_of_new {sizeBytes : ℕ} {usages : BufferUsages} {memory : MemoryClass}
    {descriptor : BufferDesc} (h : new sizeBytes usages memory = .ok descriptor) :
    descriptor = ⟨sizeBytes, usages, memory⟩ := by
  unfold new validate at h
  split_ifs at h with hsize husages
  · exact nomatch h
  · exact nomatch h
  · exact (Except.ok.inj h).symm

/-- A constructed descriptor is not empty. -/
theorem sizeBytes_pos_of_new {given descriptor : BufferDesc}
    (h : new given.sizeBytes given.usages given.memory = .ok descriptor) :
    0 < descriptor.sizeBytes := by
  unfold new validate at h
  split_ifs at h with hsize husages
  · exact nomatch h
  · exact nomatch h
  · obtain rfl := Except.ok.inj h
    exact Nat.pos_of_ne_zero hsize

end BufferDesc

end NNIS
