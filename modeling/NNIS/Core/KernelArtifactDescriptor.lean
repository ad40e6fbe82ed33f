import NNIS.Core.KernelArtifact

/-!
# The canonical descriptor is injective

Every part of the canonical descriptor of a validated artifact is self-delimiting: integers and tags
have a fixed width, texts and the list of bindings stand behind their lengths, and the optional
evidence behind a tag. The byte stream therefore determines every field of the artifact except the
source, of which it determines the length and the digest.

## Main results

* `KernelArtifactFieldsV1.selfDelimiting_text`, `KernelArtifactFieldsV1.selfDelimiting_binding`,
  `KernelArtifactFieldsV1.selfDelimiting_evidence` — the parts of the descriptor.
* `KernelArtifactV1.descriptorBytes_eq_iff`.
-/

set_option autoImplicit false

namespace NNIS

/-! ### Tags -/

theorem KernelSourceKindV1.tag_injective : Function.Injective KernelSourceKindV1.tag := by
  intro kind kind' h
  cases kind <;> cases kind' <;> first | rfl | exact absurd h (by decide)

theorem KernelBindingKindV1.tag_injective : Function.Injective KernelBindingKindV1.tag := by
  intro kind kind' h
  cases kind <;> cases kind' <;> first | rfl | exact absurd h (by decide)

theorem KernelElementTypeV1.tag_injective : Function.Injective KernelElementTypeV1.tag := by
  intro element element' h
  cases element <;> cases element' <;> first | rfl | exact absurd h (by decide)

namespace KernelArtifactFieldsV1

/-! ### The parts of the descriptor -/

theorem length_utf8 (value : String) : (utf8 value).length = Str.len value := by
  rw [utf8, Str.len, Array.length_toList]
  rfl

theorem utf8_injective {value value' : String} (h : utf8 value = utf8 value') : value = value' :=
  String.toByteArray_inj.1 (ByteArray.ext (Array.toList_inj.1 h))

/-- A text is self-delimiting: its length stands before its bytes. -/
theorem selfDelimiting_text :
    SelfDelimiting (fun value => Str.len value < 2 ^ 32) fun value => (text value).flatten := by
  have hbytes := (selfDelimiting_singleton UInt8).counted (selfDelimiting_leBytes 4)
  refine (hbytes.comap utf8 (fun value hvalue => ⟨?_, fun _ _ => trivial⟩)
    fun _ _ _ _ heq => utf8_injective heq).congr fun value => ?_
  · rwa [length_utf8]
  · rw [List.flatMap_singleton', length_utf8]
    simp only [text, List.flatten_cons, List.flatten_nil, List.append_nil]

/-- A 32-bit integer is self-delimiting. -/
theorem selfDelimiting_u32 :
    SelfDelimiting (fun _ : UInt32 => True) fun value => leBytes 4 value.toNat :=
  (selfDelimiting_leBytes 4).comap UInt32.toNat (fun value _ => value.toNat_lt)
    fun _ _ _ _ heq => UInt32.toNat_inj.1 heq

/-- A 64-bit integer is self-delimiting. -/
theorem selfDelimiting_u64 :
    SelfDelimiting (fun _ : UInt64 => True) fun value => leBytes 8 value.toNat :=
  (selfDelimiting_leBytes 8).comap UInt64.toNat (fun value _ => value.toNat_lt)
    fun _ _ _ _ heq => UInt64.toNat_inj.1 heq

/-- A binding is self-delimiting: all of its parts have a fixed width. -/
theorem selfDelimiting_binding :
    SelfDelimiting (fun _ : KernelBindingV1 => True) fun binding =>
      (bindingPieces binding).flatten := by
  have hparts := selfDelimiting_u32.prod (selfDelimiting_u32.prod
    ((selfDelimiting_tag KernelBindingKindV1.tag_injective).prod
      ((selfDelimiting_tag KernelElementTypeV1.tag_injective).prod selfDelimiting_u64)))
  refine (hparts.comap (fun binding : KernelBindingV1 => (binding.group, binding.binding,
    binding.kind, binding.element, binding.minSizeBytes))
    (fun _ _ => ⟨trivial, trivial, trivial, trivial, trivial⟩) fun b b' _ _ heq => ?_).congr
      fun binding => ?_
  · cases b
    cases b'
    simpa only [KernelBindingV1.mk.injEq, Prod.mk.injEq] using heq
  · simp only [bindingPieces, List.flatten_cons, List.flatten_nil, List.append_nil,
      List.cons_append, List.nil_append]

/-- Optional evidence is self-delimiting: a tag stands before it. -/
theorem selfDelimiting_evidence :
    SelfDelimiting (fun evidence : Option String => ∀ e ∈ evidence, Str.len e < 2 ^ 32)
      fun evidence => (evidencePieces evidence).flatten := by
  intro evidence evidence' h h' rest rest' heq
  cases evidence with
  | none =>
    cases evidence' with
    | none => exact ⟨rfl, (List.cons.inj heq).2⟩
    | some e' => exact absurd (List.cons.inj heq).1 (by decide)
  | some e =>
    cases evidence' with
    | none => exact absurd (List.cons.inj heq).1 (by decide)
    | some e' =>
      obtain ⟨rfl, hrest⟩ := selfDelimiting_text (h e rfl) (h' e' rfl) (List.cons.inj heq).2
      exact ⟨rfl, hrest⟩

/-- The dimensions of a workgroup are self-delimiting. -/
theorem selfDelimiting_workgroup :
    SelfDelimiting (fun _ : UInt32 × UInt32 × UInt32 => True) fun size =>
      leBytes 4 size.1.toNat ++ (leBytes 4 size.2.1.toNat ++ leBytes 4 size.2.2.toNat) := by
  have hparts := selfDelimiting_u32.prod (selfDelimiting_u32.prod selfDelimiting_u32)
  exact hparts.comap id (fun _ _ => ⟨trivial, trivial, trivial⟩) fun _ _ _ _ => id

/-- The bindings stand behind their number. -/
theorem selfDelimiting_bindings :
    SelfDelimiting (fun bindings : List KernelBindingV1 => bindings.length < 2 ^ 32) fun bindings =>
      leBytes 4 bindings.length ++ bindings.flatMap fun binding =>
        (bindingPieces binding).flatten :=
  (selfDelimiting_binding.counted (selfDelimiting_leBytes 4)).comap id
    (fun _ h => ⟨h, fun _ _ => trivial⟩) fun _ _ _ _ => id

/-! ### What the validation bounds -/

/-- The lengths of validated fields fit their prefixes. -/
structure Bounded (fields : KernelArtifactFieldsV1) : Prop where
  artifactId : Str.len fields.artifactId < 2 ^ 32
  entryPoint : Str.len fields.entryPoint < 2 ^ 32
  numericalPolicy : Str.len fields.numericalPolicy < 2 ^ 32
  evidence : ∀ e ∈ fields.qualificationEvidenceSha256, Str.len e < 2 ^ 32
  bindings : fields.bindings.length < 2 ^ 32
  source : fields.source.length < 2 ^ 64

theorem bounded_of_validate {fields : KernelArtifactFieldsV1} {requirements : KernelRequirementsV1}
    (h : fields.validate = .ok requirements) : fields.Bounded := by
  simp only [validate, validateId, validateEntryPoint, Except.bind_eq_ok_iff,
    Outcome.require_eq_ok_iff] at h
  obtain ⟨_, ⟨_, -, -, hid⟩, _, -, _, ⟨-, hsource⟩, _, -, _, ⟨-, hentry, -⟩, _, ⟨_, -, -, hpolicy⟩,
    _, hevidence, _, ⟨-, hbindings⟩, -⟩ := h
  simp only [maxKernelArtifactIdBytes, maxKernelArtifactSourceBytes,
    maxKernelArtifactBindings] at hid hentry hpolicy hsource hbindings
  refine ⟨by omega, by omega, by omega, fun e he => ?_, by omega, by omega⟩
  rw [Option.mem_def] at he
  simp only [he, Option.all_some, Bool.and_eq_true, decide_eq_true_eq] at hevidence
  omega

/-- The descriptor as one sequence of its parts. -/
theorem flatten_descriptor (fields : KernelArtifactFieldsV1) (sourceSha256 : List UInt8) :
    (fields.descriptor sourceSha256).flatten =
      (utf8 "nnis.portable-kernel-artifact.v1\x00" ++
        leBytes 4 nnisPortableKernelArtifactVersion) ++
        ((text fields.artifactId).flatten ++ (leBytes 4 fields.artifactRevision.toNat ++
          ([fields.sourceKind.tag] ++ (leBytes 8 fields.source.length ++ (sourceSha256 ++
            ((text fields.entryPoint).flatten ++ ((leBytes 4 fields.bindings.length ++
              fields.bindings.flatMap fun binding => (bindingPieces binding).flatten) ++
                ((leBytes 4 fields.workgroupSize.1.toNat ++
                  (leBytes 4 fields.workgroupSize.2.1.toNat ++
                    leBytes 4 fields.workgroupSize.2.2.toNat)) ++
                  ((text fields.numericalPolicy).flatten ++
                    (evidencePieces fields.qualificationEvidenceSha256).flatten))))))))) := by
  have hbindings : (fields.bindings.flatMap bindingPieces).flatten =
      fields.bindings.flatMap fun binding => (bindingPieces binding).flatten := by
    rw [List.flatMap_def, List.flatten_flatten, List.map_map, ← List.flatMap_def]
    rfl
  simp only [descriptor, dimensions, List.flatten_append, List.flatten_cons, List.flatten_nil,
    List.map_cons, List.map_nil, List.append_nil, hbindings, List.append_assoc]

/-- The requirements do not depend on the source. -/
theorem requirements_eq {fields fields' : KernelArtifactFieldsV1}
    {requirements requirements' : KernelRequirementsV1}
    (h : fields.validate = .ok requirements) (h' : fields'.validate = .ok requirements')
    (hkind : fields.sourceKind = fields'.sourceKind)
    (hbindings : fields.bindings = fields'.bindings)
    (hsize : fields.workgroupSize = fields'.workgroupSize) : requirements = requirements' := by
  have hfold : validateBinding fields = validateBinding fields' := by
    funext acc entry
    simp only [validateBinding, hbindings]
  have hdimensions : fields.dimensions = fields'.dimensions := by
    simp only [dimensions, hsize]
  simp only [validate, Except.bind_eq_ok_iff, Outcome.okOr_eq_ok_iff,
    Except.pure_eq_ok_iff] at h h'
  obtain ⟨_, -, _, -, _, -, _, -, _, -, _, -, _, -, _, -, acc, hacc, _, -, _, -, product, hproduct,
    rfl⟩ := h
  obtain ⟨_, -, _, -, _, -, _, -, _, -, _, -, _, -, _, -, acc', hacc', _, -, _, -, product',
    hproduct', rfl⟩ := h'
  rw [hfold, hbindings, hacc'] at hacc
  obtain rfl := Except.ok.inj hacc
  rw [hdimensions, hproduct'] at hproduct
  obtain rfl := Option.some.inj hproduct
  rw [hkind, hbindings, hsize]

end KernelArtifactFieldsV1

namespace KernelArtifactV1

/-- Two validated artifacts have one descriptor exactly when they have the same fields, apart from
the source, and sources of one length and digest. -/
theorem descriptorBytes_eq_iff (artifact artifact' : KernelArtifactV1) :
    artifact.descriptorBytes = artifact'.descriptorBytes ↔
      { artifact.fields with source := [] } = { artifact'.fields with source := [] } ∧
        artifact.fields.source.length = artifact'.fields.source.length ∧
        artifact.sourceSha256 = artifact'.sourceSha256 ∧
        artifact.requirements = artifact'.requirements := by
  constructor
  · intro h
    have hb := KernelArtifactFieldsV1.bounded_of_validate artifact.valid
    have hb' := KernelArtifactFieldsV1.bounded_of_validate artifact'.valid
    rw [descriptorBytes, descriptorBytes, KernelArtifactFieldsV1.flatten_descriptor,
      KernelArtifactFieldsV1.flatten_descriptor] at h
    have h := List.append_cancel_left h
    obtain ⟨hid, h⟩ := KernelArtifactFieldsV1.selfDelimiting_text hb.artifactId hb'.artifactId h
    obtain ⟨hrevision, h⟩ := KernelArtifactFieldsV1.selfDelimiting_u32 trivial trivial h
    obtain ⟨hkind, h⟩ :=
      selfDelimiting_tag KernelSourceKindV1.tag_injective trivial trivial h
    obtain ⟨hlength, h⟩ := selfDelimiting_leBytes 8 hb.source hb'.source h
    obtain ⟨hdigest, h⟩ := List.append_inj h
      ((length_sha256 artifact.fields.source).trans (length_sha256 artifact'.fields.source).symm)
    obtain ⟨hentry, h⟩ := KernelArtifactFieldsV1.selfDelimiting_text hb.entryPoint hb'.entryPoint h
    obtain ⟨hbindings, h⟩ :=
      KernelArtifactFieldsV1.selfDelimiting_bindings hb.bindings hb'.bindings h
    obtain ⟨hsize, h⟩ := KernelArtifactFieldsV1.selfDelimiting_workgroup trivial trivial h
    obtain ⟨hpolicy, h⟩ :=
      KernelArtifactFieldsV1.selfDelimiting_text hb.numericalPolicy hb'.numericalPolicy h
    have hevidence :=
      KernelArtifactFieldsV1.selfDelimiting_evidence.inj hb.evidence hb'.evidence h
    exact ⟨KernelArtifactFieldsV1.ext hid hrevision hkind rfl hentry hbindings hsize hpolicy
      hevidence, hlength, hdigest, KernelArtifactFieldsV1.requirements_eq artifact.valid
        artifact'.valid hkind hbindings hsize⟩
  · rintro ⟨hfields, hlength, hdigest, -⟩
    simp only [KernelArtifactFieldsV1.mk.injEq] at hfields
    obtain ⟨hid, hrevision, hkind, -, hentry, hbindings, hsize, hpolicy, hevidence⟩ := hfields
    rw [descriptorBytes, descriptorBytes, KernelArtifactFieldsV1.flatten_descriptor,
      KernelArtifactFieldsV1.flatten_descriptor, hid, hrevision, hkind, hlength, hdigest, hentry,
      hbindings, hsize, hpolicy, hevidence]

end KernelArtifactV1

end NNIS
