import NNIS.Codec.SelfDelimiting
import NNIS.Wgpu.Kernel
import NNIS.Wgpu.MemoryRefinement

/-!
# Kernels on a WGPU device

The host checks of `nnis-wgpu/src/numerical.rs` before a kernel is dispatched: the artifact is bound
to the device, by the capabilities and then by the limits of its bindings, and the workgroups are
counted. An artifact stands here for what the device is asked for, the invocations of a workgroup
and the sizes of the storage bindings of one group; its texts are constants that its own validation
accepts, and its fingerprint is compared with itself.

## Main definitions

* `wordsOfLeBytes` — the words of a binding.
* `WgpuDevice.checkCapabilities`, `WgpuDevice.checkWgpuBindingLimits`, `WgpuDevice.artifact`.
* `WgpuDevice.groups` — the workgroups of a dispatch.
* `WgpuDevice.Runs` — the device passes these checks.

## Main results

* `WgpuDevice.artifact_cases`, `WgpuDevice.groups_cases` — a check passes or is refused.
-/

set_option autoImplicit false

namespace NNIS

/-! ### Words -/

/-- The little-endian words of bytes. -/
def wordsOfLeBytes : List UInt8 → List ℕ
  | b₀ :: b₁ :: b₂ :: b₃ :: rest =>
    (b₀.toNat + 2 ^ 8 * (b₁.toNat + 2 ^ 8 * (b₂.toNat + 2 ^ 8 * b₃.toNat))) :: wordsOfLeBytes rest
  | _ => []

/-- The words of the bytes of numbers are their low 32 bits. -/
theorem wordsOfLeBytes_flatMap (words : List ℕ) :
    wordsOfLeBytes (words.flatMap (leBytes 4)) = words.map (· % wordLimit32) := by
  induction words with
  | nil => rfl
  | cons word words ih =>
    rw [List.flatMap_cons, List.map_cons, ← ih]
    change ((UInt8.ofNat word).toNat + 2 ^ 8 * ((UInt8.ofNat (word / 2 ^ 8)).toNat +
      2 ^ 8 * ((UInt8.ofNat (word / 2 ^ 8 / 2 ^ 8)).toNat +
        2 ^ 8 * (UInt8.ofNat (word / 2 ^ 8 / 2 ^ 8 / 2 ^ 8)).toNat))) :: _ = _
    refine congrArg (· :: _) ?_
    simp only [UInt8.toNat_ofNat', wordLimit32]
    omega

theorem length_flatMap_leBytes (words : List ℕ) :
    (words.flatMap (leBytes 4)).length = words.length * 4 := by
  induction words with
  | nil => rfl
  | cons word words ih =>
    rw [List.flatMap_cons, List.length_append, length_leBytes, ih, List.length_cons]
    omega

/-! ### Artifacts -/

namespace WgpuDevice

variable (device : WgpuDevice)

/-- The capability for bindings: those of a stage, capped by those of the bind groups. -/
def maxBindings : ℕ :=
  min (min (device.limits.maxStorageBuffersPerShaderStage +
      device.limits.maxUniformBuffersPerShaderStage) (wordLimit32 - 1))
    (min (device.limits.maxBindingsPerBindGroup * device.limits.maxBindGroups) (wordLimit32 - 1))

/-- Refuse an artifact for a capability that the device lacks. -/
def requireCapability (holds : Prop) [Decidable holds] (capability : String) :
    Outcome PortableError PUnit :=
  .require holds
    (.unsupported ("kernel artifact: backend lacks required capability " ++ capability))

/-- Check the requirements of an artifact against the capabilities. -/
def checkCapabilities (workgroup : ℕ) (bindingBytes : List ℕ) : Outcome PortableError PUnit := do
  let size := device.limits.maxComputeWorkgroupSize
  requireCapability (workgroup ≤ size.1) "WorkgroupSize \x7b axis: 0 \x7d"
  requireCapability (1 ≤ size.2.1) "WorkgroupSize \x7b axis: 1 \x7d"
  requireCapability (1 ≤ size.2.2) "WorkgroupSize \x7b axis: 2 \x7d"
  requireCapability (workgroup ≤ device.limits.maxComputeInvocationsPerWorkgroup)
    "WorkgroupInvocations"
  requireCapability (bindingBytes.length ≤ device.maxBindings) "Bindings"
  requireCapability (∀ bytes ∈ bindingBytes, bytes ≤ device.maxBufferBytes) "BufferBytes"

/-- Refuse an artifact for a limit of its bindings. -/
def requireBindingLimit (holds : Prop) [Decidable holds] (limit : String) :
    Outcome PortableError PUnit :=
  .require holds (.unsupported ("WGPU binding limit exceeded: " ++ limit))

/-- Check the bindings of an artifact against the limits that are no capability. -/
def checkWgpuBindingLimits (bindingBytes : List ℕ) : Outcome PortableError PUnit := do
  (List.range bindingBytes.length).forM fun binding => do
    requireBindingLimit (0 < device.limits.maxBindGroups) "BindGroupIndex"
    requireBindingLimit (binding < device.limits.maxBindingsPerBindGroup) "BindingIndex"
  requireBindingLimit (bindingBytes.length ≤ device.limits.maxStorageBuffersPerShaderStage)
    "StorageBuffersPerStage"

/-- Bind an artifact to the device. -/
def artifact (workgroup : ℕ) (bindingBytes : List ℕ) : Outcome PortableError PUnit := do
  device.checkCapabilities workgroup bindingBytes
  device.checkWgpuBindingLimits bindingBytes

/-- The workgroups of a dispatch. -/
def groups (invocations workgroup : ℕ) : Outcome PortableError ℕ :=
  let groups := (invocations + (workgroup - 1)) / workgroup
  if groups < wordLimit32 ∧ groups ≤ device.limits.maxComputeWorkgroupsPerDimension then .ok groups
  else .raise (.unsupported "WGPU F32 dispatch exceeds workgroup limit")

/-- The device binds the artifact of a kernel and dispatches a number of its invocations. -/
structure Runs (workgroup : ℕ) (bindingBytes : List ℕ) (invocations : ℕ) : Prop where
  artifact : device.artifact workgroup bindingBytes = .ok ⟨⟩
  groups : device.groups invocations workgroup =
    .ok ((invocations + (workgroup - 1)) / workgroup)

variable {device} {workgroup invocations : ℕ} {bindingBytes : List ℕ}

/-- An artifact is bound or refused. -/
theorem artifact_cases (device : WgpuDevice) (workgroup : ℕ) (bindingBytes : List ℕ) :
    device.artifact workgroup bindingBytes = .ok ⟨⟩ ∨
      ∃ e, device.artifact workgroup bindingBytes = .error (.error e) := by
  have hlimits : Outcome.Safe (device.checkWgpuBindingLimits bindingBytes) :=
    (Outcome.Safe.forM fun _ _ => (Outcome.Safe.require _ _).bind fun _ _ =>
      Outcome.Safe.require _ _).bind fun _ _ => Outcome.Safe.require _ _
  have hcapabilities : Outcome.Safe (device.checkCapabilities workgroup bindingBytes) :=
    (Outcome.Safe.require _ _).bind fun _ _ => (Outcome.Safe.require _ _).bind fun _ _ =>
      (Outcome.Safe.require _ _).bind fun _ _ => (Outcome.Safe.require _ _).bind fun _ _ =>
      (Outcome.Safe.require _ _).bind fun _ _ => Outcome.Safe.require _ _
  exact (hcapabilities.bind fun _ _ => hlimits).cases.imp_left fun h => h.elim fun _ h => h

/-- The workgroups of a dispatch are within the limit or refused. -/
theorem groups_cases (device : WgpuDevice) (invocations workgroup : ℕ) :
    device.groups invocations workgroup = .ok ((invocations + (workgroup - 1)) / workgroup) ∨
      ∃ e, device.groups invocations workgroup = .error (.error e) := by
  unfold groups
  dsimp only
  split_ifs
  · exact .inl rfl
  · exact .inr ⟨_, rfl⟩

end WgpuDevice

end NNIS
