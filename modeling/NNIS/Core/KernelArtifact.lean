import NNIS.Codec.SelfDelimiting
import NNIS.Core.Portable
import NNIS.Core.Sha256
import NNIS.Text.Str

/-!
# Portable kernel artifacts

The artifacts of `nnis-core/src/kernel_artifact.rs`: source, entry point, binding schema, workgroup
geometry and policy of a kernel, with the requirements derived from them and the fingerprint of
their canonical descriptor. An artifact carries the outcome of its validation.

## Main definitions

* `KernelArtifactFieldsV1`, `KernelArtifactFieldsV1.validate`, `KernelArtifactV1`.
* `KernelArtifactFieldsV1.descriptor` — the pieces of the canonical descriptor.
* `KernelArtifactV1.sourceSha256`, `KernelArtifactV1.artifactFingerprint`.
-/

set_option autoImplicit false

namespace NNIS

/-- Version of the portable kernel artifact contract. -/
def nnisPortableKernelArtifactVersion : ℕ := 1

/-- Maximum UTF-8 bytes for artifact ids, entry points and policies. -/
def maxKernelArtifactIdBytes : ℕ := 128

/-- Maximum bindings in one artifact. -/
def maxKernelArtifactBindings : ℕ := 64

/-- Maximum source bytes in one artifact. -/
def maxKernelArtifactSourceBytes : ℕ := 16 * 1024 * 1024

/-- Execution API families. -/
inductive BackendFamily
  | cpu
  | wgpu
  deriving DecidableEq

/-- Kind of kernel source carried by an artifact. -/
inductive KernelSourceKindV1
  | wgsl
  | portableIr
  | cpuBuiltin
  deriving DecidableEq

namespace KernelSourceKindV1

/-- Backend family able to consume a source kind. -/
def backendFamily : KernelSourceKindV1 → BackendFamily
  | wgsl => .wgpu
  | portableIr => .wgpu
  | cpuBuiltin => .cpu

def tag : KernelSourceKindV1 → UInt8
  | wgsl => 1
  | portableIr => 2
  | cpuBuiltin => 3

end KernelSourceKindV1

/-- Access kind of one kernel binding. -/
inductive KernelBindingKindV1
  | storageReadOnly
  | storageReadWrite
  | uniform
  deriving DecidableEq

def KernelBindingKindV1.tag : KernelBindingKindV1 → UInt8
  | storageReadOnly => 1
  | storageReadWrite => 2
  | uniform => 3

/-- Element type of one binding. -/
inductive KernelElementTypeV1
  | f32
  | f16
  | u32
  deriving DecidableEq

namespace KernelElementTypeV1

/-- Bytes per element. -/
def bytes : KernelElementTypeV1 → UInt64
  | f32 => 4
  | f16 => 2
  | u32 => 4

def tag : KernelElementTypeV1 → UInt8
  | f32 => 1
  | f16 => 2
  | u32 => 3

end KernelElementTypeV1

/-- One entry of the binding schema. -/
structure KernelBindingV1 where
  group : UInt32
  binding : UInt32
  kind : KernelBindingKindV1
  element : KernelElementTypeV1
  minSizeBytes : UInt64
  deriving DecidableEq

/-- Unvalidated artifact fields. -/
@[ext]
structure KernelArtifactFieldsV1 where
  artifactId : String
  artifactRevision : UInt32
  sourceKind : KernelSourceKindV1
  source : List UInt8
  entryPoint : String
  bindings : List KernelBindingV1
  workgroupSize : UInt32 × UInt32 × UInt32
  numericalPolicy : String
  qualificationEvidenceSha256 : Option String
  deriving DecidableEq

/-- Capability requirements derived from an artifact. -/
structure KernelRequirementsV1 where
  backendFamily : BackendFamily
  workgroupSize : UInt32 × UInt32 × UInt32
  workgroupInvocations : ℕ
  bindings : ℕ
  maxBindingBytes : UInt64
  requiresF16 : Bool
  deriving DecidableEq

/-- Fail-closed portable kernel artifact errors of the validation. -/
inductive KernelArtifactError
  | emptyField (field : String)
  | invalidField (field : String)
  | zeroArtifactRevision
  | invalidSourceSize (bytes : ℕ)
  | sourceNotUtf8
  | invalidEntryPoint
  | invalidEvidenceFingerprint
  | invalidBindingCount (bindings : ℕ)
  | unorderedOrDuplicateBinding (group binding : UInt32)
  | invalidBindingSize (group binding : UInt32)
  | noWritableBinding
  | invalidWorkgroupSize
  deriving DecidableEq

/-- The text of an error. -/
def KernelArtifactError.text : KernelArtifactError → String
  | emptyField field => s!"{field} must not be empty"
  | invalidField field => s!"{field} is non-canonical or too long"
  | zeroArtifactRevision => "artifact revision must be non-zero"
  | invalidSourceSize bytes =>
    s!"artifact source has {bytes} bytes, expected 1..={maxKernelArtifactSourceBytes}"
  | sourceNotUtf8 => "artifact source must be UTF-8"
  | invalidEntryPoint => "entry point must be an ASCII identifier"
  | invalidEvidenceFingerprint =>
    "qualification evidence fingerprint must be 64 lowercase hex digits"
  | invalidBindingCount bindings =>
    s!"artifact declares {bindings} bindings, expected 1..={maxKernelArtifactBindings}"
  | unorderedOrDuplicateBinding group binding =>
    s!"binding ({group}, {binding}) is out of order or duplicated"
  | invalidBindingSize group binding =>
    s!"binding ({group}, {binding}) size must be non-zero and element aligned"
  | noWritableBinding => "artifact needs a read-write storage binding"
  | invalidWorkgroupSize => "workgroup size is zero or overflows"

namespace KernelArtifactFieldsV1

/-- The UTF-8 bytes of a text. -/
def utf8 (value : String) : List UInt8 := value.toByteArray.data.toList

/-! ### Validation -/

def validateId (field value : String) : Outcome KernelArtifactError PUnit := do
  .require (Str.trim value ≠ "") (.emptyField field)
  .require (Str.trim value = value ∧ Str.len value ≤ maxKernelArtifactIdBytes)
    (.invalidField field)

def isAsciiAlphabetic (byte : UInt8) : Bool :=
  (0x41 ≤ byte && byte ≤ 0x5A) || (0x61 ≤ byte && byte ≤ 0x7A)

def isAsciiDigit (byte : UInt8) : Bool := 0x30 ≤ byte && byte ≤ 0x39

def validateEntryPoint (value : String) : Outcome KernelArtifactError PUnit :=
  .require (((utf8 value).head?.any fun byte => isAsciiAlphabetic byte || byte == 0x5F) ∧
    Str.len value ≤ maxKernelArtifactIdBytes ∧ (utf8 value).tail.all fun byte =>
      isAsciiAlphabetic byte || isAsciiDigit byte || byte == 0x5F) .invalidEntryPoint

/-- Check one binding and account for it. -/
def validateBinding (fields : KernelArtifactFieldsV1) (acc : UInt64 × Bool)
    (entry : KernelBindingV1 × ℕ) : Outcome KernelArtifactError (UInt64 × Bool) := do
  let (binding, index) := entry
  if 0 < index then
    let previous ← .index fields.bindings (index - 1)
    .require (previous.group < binding.group ∨
      previous.group = binding.group ∧ previous.binding < binding.binding)
      (.unorderedOrDuplicateBinding binding.group binding.binding)
  .require (binding.minSizeBytes ≠ 0 ∧ binding.minSizeBytes % binding.element.bytes = 0)
    (.invalidBindingSize binding.group binding.binding)
  pure (max acc.1 binding.minSizeBytes, acc.2 || binding.element == .f16)

/-- The dimensions of the workgroup. -/
def dimensions (fields : KernelArtifactFieldsV1) : List UInt32 :=
  [fields.workgroupSize.1, fields.workgroupSize.2.1, fields.workgroupSize.2.2]

/-- The product of some dimensions, if it fits 32 bits. -/
def checkedProduct (product : ℕ) : List UInt32 → Option ℕ
  | [] => some product
  | dimension :: rest =>
    if product * dimension.toNat < 2 ^ 32 then checkedProduct (product * dimension.toNat) rest
    else none

/-- Validate artifact fields and derive their requirements. -/
def validate (fields : KernelArtifactFieldsV1) :
    Outcome KernelArtifactError KernelRequirementsV1 := do
  validateId "artifact_id" fields.artifactId
  .require (fields.artifactRevision ≠ 0) .zeroArtifactRevision
  .require (fields.source ≠ [] ∧ fields.source.length ≤ maxKernelArtifactSourceBytes)
    (.invalidSourceSize fields.source.length)
  .require (fields.sourceKind = .portableIr ∨ (ByteArray.mk fields.source.toArray).validateUTF8)
    .sourceNotUtf8
  validateEntryPoint fields.entryPoint
  validateId "numerical_policy" fields.numericalPolicy
  .require (fields.qualificationEvidenceSha256.all fun evidence =>
    Str.len evidence = 64 && (utf8 evidence).all fun byte =>
      isAsciiDigit byte || (0x61 ≤ byte && byte ≤ 0x66)) .invalidEvidenceFingerprint
  .require (fields.bindings ≠ [] ∧ fields.bindings.length ≤ maxKernelArtifactBindings)
    (.invalidBindingCount fields.bindings.length)
  let (maxBindingBytes, requiresF16) ←
    fields.bindings.zipIdx.foldlM (validateBinding fields) (0, false)
  .require (fields.bindings.any fun binding => binding.kind == .storageReadWrite)
    .noWritableBinding
  .require (0 ∉ fields.dimensions) .invalidWorkgroupSize
  let workgroupInvocations ← .okOr (checkedProduct 1 fields.dimensions) .invalidWorkgroupSize
  pure { backendFamily := fields.sourceKind.backendFamily
         workgroupSize := fields.workgroupSize
         workgroupInvocations
         bindings := fields.bindings.length
         maxBindingBytes
         requiresF16 }

/-! ### The canonical descriptor -/

/-- The pieces of a text: its length and its bytes. -/
def text (value : String) : List (List UInt8) := [leBytes 4 (Str.len value), utf8 value]

/-- The pieces of one binding. -/
def bindingPieces (binding : KernelBindingV1) : List (List UInt8) :=
  [leBytes 4 binding.group.toNat, leBytes 4 binding.binding.toNat,
    [binding.kind.tag, binding.element.tag], leBytes 8 binding.minSizeBytes.toNat]

/-- The pieces of an optional evidence fingerprint. -/
def evidencePieces : Option String → List (List UInt8)
  | none => [[0]]
  | some evidence => [1] :: text evidence

/-- The pieces of the canonical descriptor, in the order in which they are hashed: the domain, then
the fields with little-endian integers and length-prefixed texts. -/
def descriptor (fields : KernelArtifactFieldsV1) (sourceSha256 : List UInt8) :
    List (List UInt8) :=
  [utf8 "nnis.portable-kernel-artifact.v1\x00", leBytes 4 nnisPortableKernelArtifactVersion] ++
    text fields.artifactId ++
    [leBytes 4 fields.artifactRevision.toNat, [fields.sourceKind.tag],
      leBytes 8 fields.source.length, sourceSha256] ++
    text fields.entryPoint ++
    [leBytes 4 fields.bindings.length] ++ fields.bindings.flatMap bindingPieces ++
    fields.dimensions.map (fun dimension => leBytes 4 dimension.toNat) ++
    text fields.numericalPolicy ++ evidencePieces fields.qualificationEvidenceSha256

/-- Hash the pieces of the descriptor. -/
def descriptorFingerprint (fields : KernelArtifactFieldsV1) (sourceSha256 : List UInt8) :
    List UInt8 :=
  ((fields.descriptor sourceSha256).foldl Sha256.update Sha256.new).finalize

end KernelArtifactFieldsV1

/-- Validated, immutable portable kernel artifact. -/
structure KernelArtifactV1 where
  fields : KernelArtifactFieldsV1
  requirements : KernelRequirementsV1
  valid : fields.validate = .ok requirements

namespace KernelArtifactV1

/-- Validate artifact fields. -/
def new (fields : KernelArtifactFieldsV1) : Outcome KernelArtifactError KernelArtifactV1 :=
  match h : fields.validate with
  | .error e => .error e
  | .ok requirements => .ok ⟨fields, requirements, h⟩

variable (artifact : KernelArtifactV1)

/-- SHA-256 of the exact source bytes. -/
def sourceSha256 : List UInt8 := sha256 artifact.fields.source

/-- The byte stream of the canonical descriptor. -/
def descriptorBytes : List UInt8 := (artifact.fields.descriptor artifact.sourceSha256).flatten

/-- SHA-256 of the canonical descriptor. -/
def artifactFingerprint : List UInt8 :=
  artifact.fields.descriptorFingerprint artifact.sourceSha256

end KernelArtifactV1

end NNIS
