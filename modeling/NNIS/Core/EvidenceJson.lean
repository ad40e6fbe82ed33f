import NNIS.Core.AdapterEvidence
import NNIS.Core.JsonObject

/-!
# Evidence records as JSON

The encoders and the decoders of `nnis-core/src/adapter_evidence.rs` and
`nnis-core/src/host_evidence.rs`. The two kinds of record share the texts of their source identity
and of their suites; a tag tells them apart. Neither direction validates a record.

## Main definitions

* `adapterEvidenceToJson`, `adapterEvidenceFromJson`.
* `cpuHostEvidenceToJson`, `cpuHostEvidenceFromJson`.
-/

set_option autoImplicit false

namespace NNIS

open JsonObject

/-- `kind` tag of an adapter record. -/
def portableAdapterEvidenceKind : String := "nnis.portable.adapter-evidence"

def portableAdapterEvidenceSchemaVersion : UInt32 := 1

/-- `kind` tag of a CPU host record. -/
def portableCpuHostEvidenceKind : String := "nnis.portable.cpu-host-evidence"

def portableCpuHostEvidenceSchemaVersion : UInt32 := 1

/-- Fail-closed JSON errors of evidence records. -/
inductive AdapterEvidenceJsonError
  | syntaxError (offset : ℕ) (reason : String)
  | wrongKind
  | unsupportedSchemaVersion
  | missingField (field : String)
  | unknownField (field : String)
  | wrongType (field : String)
  | invalidInteger (field : String)
  | unknownVariant (field : String)
  deriving DecidableEq

/-- The text of an error. -/
def AdapterEvidenceJsonError.text : AdapterEvidenceJsonError → String
  | .syntaxError offset reason => s!"JSON syntax error at byte {offset}: {reason}"
  | .wrongKind => "record kind tag does not match"
  | .unsupportedSchemaVersion => "unsupported schema_version"
  | .missingField field => s!"missing field {field}"
  | .unknownField field => s!"unknown field {field}"
  | .wrongType field => s!"field {field} has the wrong type"
  | .invalidInteger field => s!"field {field} is not a valid integer"
  | .unknownVariant field => s!"field {field} has an unknown value"

instance : FieldErrors AdapterEvidenceJsonError where
  missingField := .missingField
  unknownField := .unknownField
  wrongType := .wrongType
  invalidInteger := .invalidInteger

/-! ### Names of variants -/

def AdapterClassV1.name : AdapterClassV1 → String
  | hardware => "hardware"
  | software => "software"
  | unknown => "unknown"

def AdapterClassV1.parse (text : String) : Option AdapterClassV1 :=
  match text with
  | "hardware" => some hardware
  | "software" => some software
  | "unknown" => some unknown
  | _ => none

def SuiteOutcomeV1.name : SuiteOutcomeV1 → String
  | pass => "pass"
  | fail => "fail"
  | skip => "skip"

def SuiteOutcomeV1.parse (text : String) : Option SuiteOutcomeV1 :=
  match text with
  | "pass" => some pass
  | "fail" => some fail
  | "skip" => some skip
  | _ => none

/-- Decode the name of a variant. -/
def asVariant {α : Type} (field : String) (parse : String → Option α) (value : Json) :
    Outcome AdapterEvidenceJsonError α := do
  let text ← asString field value
  .okOr (parse text) (.unknownVariant field)

/-! ### Encoding -/

def sourceJson (source : EvidenceSourceV1) : Json :=
  .object
    [("git_commit", .string source.gitCommit),
      ("worktree_clean", .bool source.worktreeClean),
      ("crate_version", .string source.crateVersion),
      ("toolchain", .string source.toolchain),
      ("target", .string source.target)]

def suiteJson (suite : SuiteResultV1) : Json :=
  .object
    [("suite_id", .string suite.suiteId),
      ("outcome", .string suite.outcome.name),
      ("checks", .unsigned suite.checks),
      ("mismatches", .unsigned suite.mismatches),
      ("tolerance", .string suite.tolerance),
      ("detail", .string suite.detail)]

def suitesJson (suites : List SuiteResultV1) : Json := .array (suites.map suiteJson)

def adapterJson (adapter : AdapterIdentityV1) : Json :=
  .object
    [("backend_family", .string adapter.backendFamily),
      ("api_backend", .string adapter.apiBackend),
      ("name", .string adapter.name),
      ("device_type", .string adapter.deviceType),
      ("vendor_id", .unsigned adapter.vendorId.toUInt64),
      ("device_id", .unsigned adapter.deviceId.toUInt64),
      ("driver", .string adapter.driver),
      ("driver_info", .string adapter.driverInfo),
      ("class", .string adapter.class.name)]

def hostJson (host : CpuHostIdentityV1) : Json :=
  .object
    [("arch", .string host.arch),
      ("os", .string host.os),
      ("endian", .string host.endian),
      ("pointer_width", .unsigned host.pointerWidth.toUInt64),
      ("cpu_model", .string host.cpuModel)]

/-- The members of an encoded record: its tag, its version, and its own members. -/
def recordJson (kind : String) (schemaVersion : UInt32) (members : List (String × Json)) : Json :=
  .object
    (("kind", .string kind) :: ("schema_version", .unsigned schemaVersion.toUInt64) :: members)

def adapterEvidenceJson (record : PortableAdapterEvidenceV1) : Json :=
  recordJson portableAdapterEvidenceKind portableAdapterEvidenceSchemaVersion
    [("source", sourceJson record.source),
      ("adapter", adapterJson record.adapter),
      ("suites", suitesJson record.suites)]

def cpuHostEvidenceJson (record : PortableCpuHostEvidenceV1) : Json :=
  recordJson portableCpuHostEvidenceKind portableCpuHostEvidenceSchemaVersion
    [("source", sourceJson record.source),
      ("host", hostJson record.host),
      ("suites", suitesJson record.suites)]

/-- Encode an adapter record as compact JSON. -/
def adapterEvidenceToJson (record : PortableAdapterEvidenceV1) : String :=
  Json.write (adapterEvidenceJson record)

/-- Encode a CPU host record as compact JSON. -/
def cpuHostEvidenceToJson (record : PortableCpuHostEvidenceV1) : String :=
  Json.write (cpuHostEvidenceJson record)

/-! ### Decoding -/

def sourceFrom : Reader AdapterEvidenceJsonError EvidenceSourceV1 := do
  let gitCommit ← string "git_commit"
  let worktreeClean ← bool "worktree_clean"
  let crateVersion ← string "crate_version"
  let toolchain ← string "toolchain"
  let target ← string "target"
  finish
  pure { gitCommit, worktreeClean, crateVersion, toolchain, target }

def suiteFrom : Reader AdapterEvidenceJsonError SuiteResultV1 := do
  let suiteId ← string "suite_id"
  let outcome ← read "outcome" (asVariant "outcome" SuiteOutcomeV1.parse)
  let checks ← u64 "checks"
  let mismatches ← u64 "mismatches"
  let tolerance ← string "tolerance"
  let detail ← string "detail"
  finish
  pure { suiteId, outcome, checks, mismatches, tolerance, detail }

def adapterFrom : Reader AdapterEvidenceJsonError AdapterIdentityV1 := do
  let backendFamily ← string "backend_family"
  let apiBackend ← string "api_backend"
  let name ← string "name"
  let deviceType ← string "device_type"
  let vendorId ← u32 "vendor_id"
  let deviceId ← u32 "device_id"
  let driver ← string "driver"
  let driverInfo ← string "driver_info"
  let cls ← read "class" (asVariant "class" AdapterClassV1.parse)
  finish
  pure
    { backendFamily, apiBackend, name, deviceType, vendorId, deviceId, driver, driverInfo,
      «class» := cls }

def hostFrom : Reader AdapterEvidenceJsonError CpuHostIdentityV1 := do
  let arch ← string "arch"
  let os ← string "os"
  let endian ← string "endian"
  let pointerWidth ← u32 "pointer_width"
  let cpuModel ← string "cpu_model"
  finish
  pure { arch, os, endian, pointerWidth, cpuModel }

/-- Check the `kind` and the `schema_version` of a record. -/
def recordTag (kind : String) (schemaVersion : UInt32) :
    Reader AdapterEvidenceJsonError PUnit := do
  let found ← string "kind"
  Fallible.ofExcept (Outcome.require (found = kind) .wrongKind)
  let version ← (u64 "schema_version").attempt
  Fallible.ofExcept
    (Outcome.require (version.toOption = some schemaVersion.toUInt64) .unsupportedSchemaVersion)

/-- Parse a document and read its root. -/
def parseRoot {α : Type} (root : Reader AdapterEvidenceJsonError α) (input : String) :
    Outcome AdapterEvidenceJsonError α := do
  let value ← (Json.parse input).wrap fun error => .syntaxError error.offset error.reason
  asObject "root" root value

def adapterEvidenceRoot : Reader AdapterEvidenceJsonError PortableAdapterEvidenceV1 := do
  recordTag portableAdapterEvidenceKind portableAdapterEvidenceSchemaVersion
  let source ← object "source" sourceFrom
  let adapter ← object "adapter" adapterFrom
  let suites ← array "suites" (asObject "suites" suiteFrom)
  finish
  pure { source, adapter, suites }

def cpuHostEvidenceRoot : Reader AdapterEvidenceJsonError PortableCpuHostEvidenceV1 := do
  recordTag portableCpuHostEvidenceKind portableCpuHostEvidenceSchemaVersion
  let source ← object "source" sourceFrom
  let host ← object "host" hostFrom
  let suites ← array "suites" (asObject "suites" suiteFrom)
  finish
  pure { source, host, suites }

/-- Parse an adapter record strictly. -/
def adapterEvidenceFromJson (input : String) :
    Outcome AdapterEvidenceJsonError PortableAdapterEvidenceV1 :=
  parseRoot adapterEvidenceRoot input

/-- Parse a CPU host record strictly. -/
def cpuHostEvidenceFromJson (input : String) :
    Outcome AdapterEvidenceJsonError PortableCpuHostEvidenceV1 :=
  parseRoot cpuHostEvidenceRoot input

end NNIS
