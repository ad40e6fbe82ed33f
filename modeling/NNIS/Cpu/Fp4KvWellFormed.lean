import NNIS.Cpu.Fp4Kv

/-!
# Well-formed FP4 blocks

A block is well formed when its lengths are those of its layout, its padding codes are zero, every
group scale is valid and every stored code decodes to a finite value.

## Main definitions

* `Fp4ScaleEncodingV1.HasScale`, `CpuFp4E2M1KvBlockV1.HasScale`, `CpuFp4E2M1KvBlockV1.code`,
  `CpuFp4E2M1KvBlockV1.WellFormed`.

## Main results

* `CpuFp4E2M1KvBlockV1.scale_eq_ok_iff` — a scale is read exactly when it is valid.
* `chooseScale_spec` — the bytes of a chosen scale are a valid scale.
-/

set_option autoImplicit false

namespace NNIS

/-- The stored bytes of a group are a valid scale with a given value: a finite number without a
sign, or an exponent byte other than 255. -/
def Fp4ScaleEncodingV1.HasScale (encoding : Fp4ScaleEncodingV1) (scales : List UInt8) (group : ℕ)
    (scale : F64) : Prop :=
  match encoding with
  | .f32 => ∃ b₀ b₁ b₂ b₃, region scales (group * 4) 4 = [b₀, b₁, b₂, b₃] ∧
      (F32.ofLeBytes b₀ b₁ b₂ b₃).isFinite = true ∧ (F32.ofLeBytes b₀ b₁ b₂ b₃).negative = false ∧
      scale = (F32.ofLeBytes b₀ b₁ b₂ b₃).convert binary64
  | .e8m0 => ∃ exponent : UInt8, region scales (group * 1) 1 = [exponent] ∧ exponent ≠ 255 ∧
      scale = pow2 ((exponent.toNat : ℤ) - 127)

namespace CpuFp4E2M1KvBlockV1

/-- A group of a block has a valid scale. -/
def HasScale (block : CpuFp4E2M1KvBlockV1) (group : ℕ) (scale : F64) : Prop :=
  block.layout.scaleEncoding.HasScale block.scales group scale

/-- The stored code at a position of a row. -/
def code (block : CpuFp4E2M1KvBlockV1) (row position : ℕ) : UInt8 :=
  nibbleAt block.codes (row * block.layout.paddedRowWidth + position)

/-- The lengths are those of the layout, the padding is zero, every scale is valid and every
stored code decodes to a finite value. -/
structure WellFormed (block : CpuFp4E2M1KvBlockV1) : Prop where
  length_codes : ∀ storage, block.layout.storage = .ok storage →
    block.codes.length = storage.codeBytes
  length_scales : ∀ storage, block.layout.storage = .ok storage →
    block.scales.length = storage.scaleBytes
  padding : ∀ row < block.layout.rows, ∀ position < block.layout.paddedRowWidth,
    block.layout.rowWidth ≤ position → block.code row position = 0
  scales_valid : ∀ row < block.layout.rows, ∀ group < block.layout.groupsPerRow,
    ∃ scale, block.HasScale (row * block.layout.groupsPerRow + group) scale
  finite : ∀ row < block.layout.rows, ∀ position < block.layout.rowWidth, ∀ scale,
    block.HasScale (row * block.layout.groupsPerRow + position / block.layout.groupSize) scale →
      (decodeCode (block.code row position) scale).isFinite = true

end CpuFp4E2M1KvBlockV1

/-! ### Reading a scale -/

private theorem region_of_drop_eq {l rest : List UInt8} {n : ℕ} {b₀ b₁ b₂ b₃ : UInt8}
    (h : l.drop n = b₀ :: b₁ :: b₂ :: b₃ :: rest) : region l n 4 = [b₀, b₁, b₂, b₃] := by
  rw [region, h]
  rfl

/-- A scale is read exactly when it is valid. -/
theorem CpuFp4E2M1KvBlockV1.scale_eq_ok_iff (block : CpuFp4E2M1KvBlockV1) {group : ℕ} {s : F64} :
    block.scale group = .ok s ↔ block.HasScale group s := by
  unfold scale HasScale Fp4ScaleEncodingV1.HasScale
  cases block.layout.scaleEncoding with
  | f32 =>
    simp only
    split
    case h_1 b₀ b₁ b₂ b₃ rest hdrop =>
      have hregion := region_of_drop_eq hdrop
      constructor
      · intro h
        split_ifs at h with hbad
        · cases h
        · simp only [Bool.or_eq_true, Bool.not_eq_true', not_or, Bool.not_eq_false,
            Bool.not_eq_true] at hbad
          exact ⟨b₀, b₁, b₂, b₃, hregion, hbad.1, hbad.2, (Except.ok.inj h).symm⟩
      · rintro ⟨c₀, c₁, c₂, c₃, hc, hfinite, hsign, rfl⟩
        rw [hregion] at hc
        obtain ⟨rfl, rfl, rfl, rfl⟩ : b₀ = c₀ ∧ b₁ = c₁ ∧ b₂ = c₂ ∧ b₃ = c₃ := by
          simpa only [List.cons.injEq, and_true] using hc
        rw [if_neg (by rw [hfinite, hsign]; decide)]
        rfl
    case h_2 hshort =>
      refine ⟨(fun h => by cases h), ?_⟩
      rintro ⟨b₀, b₁, b₂, b₃, hregion, -⟩
      rw [region] at hregion
      exact absurd (List.take_append_drop 4 (block.scales.drop (group * 4))).symm
        (by rw [hregion]; exact hshort b₀ b₁ b₂ b₃ _)
  | e8m0 =>
    have hget : ∀ exponent, block.scales[group]? = some exponent ↔
        region block.scales (group * 1) 1 = [exponent] := by
      intro exponent
      rw [region, Nat.mul_one, List.take_one, List.head?_drop]
      cases block.scales[group]? with
      | none => exact ⟨fun h => (Option.some_ne_none exponent h.symm).elim, fun h =>
          (List.cons_ne_nil _ _ h.symm).elim⟩
      | some b => exact ⟨fun h => by rw [h]; rfl, fun h => congrArg some (List.cons.inj h).1⟩
    simp only
    split
    case h_1 exponent hsome =>
      have hregion := (hget exponent).1 hsome
      constructor
      · intro h
        split_ifs at h with hbad
        · cases h
        · exact ⟨exponent, hregion, hbad, (Except.ok.inj h).symm⟩
      · rintro ⟨exponent', hregion', hne, rfl⟩
        rw [hregion] at hregion'
        obtain rfl := (List.cons.inj hregion').1
        rw [if_neg hne]
        rfl
    case h_2 hnone =>
      refine ⟨(fun h => by cases h), ?_⟩
      rintro ⟨exponent, hregion, -⟩
      rw [(hget exponent).2 hregion] at hnone
      cases hnone

/-- Reading a scale does not panic. -/
theorem CpuFp4E2M1KvBlockV1.scale_safe (block : CpuFp4E2M1KvBlockV1) (group : ℕ) :
    Outcome.Safe (block.scale group) := by
  unfold scale
  cases block.layout.scaleEncoding with
  | f32 =>
    simp only
    split
    · split_ifs
      · exact Outcome.Safe.raise _
      · exact Outcome.Safe.pure _
    · exact Outcome.Safe.raise _
  | e8m0 =>
    simp only
    split
    · split_ifs
      · exact Outcome.Safe.raise _
      · exact Outcome.Safe.pure _
    · exact Outcome.Safe.raise _

namespace Fp4ScaleEncodingV1

variable {encoding : Fp4ScaleEncodingV1} {scales scales' : List UInt8} {group : ℕ} {scale : F64}

/-- The scale of a group depends on the bytes of the group only. -/
theorem HasScale.congr (h : encoding.HasScale scales group scale)
    (heq : region scales' (group * encoding.bytes) encoding.bytes =
      region scales (group * encoding.bytes) encoding.bytes) :
    encoding.HasScale scales' group scale := by
  cases encoding with
  | f32 =>
    obtain ⟨b₀, b₁, b₂, b₃, hregion, hrest⟩ := h
    exact ⟨b₀, b₁, b₂, b₃, heq.trans hregion, hrest⟩
  | e8m0 =>
    obtain ⟨exponent, hregion, hrest⟩ := h
    exact ⟨exponent, heq.trans hregion, hrest⟩

/-- Writing the scale of one group leaves the scales of the others. -/
theorem HasScale.write_of_ne (h : encoding.HasScale scales group scale) {group' : ℕ}
    (hne : group ≠ group') {source : List UInt8} (hsource : source.length = encoding.bytes) :
    encoding.HasScale (writeRegion scales (group' * encoding.bytes) source) group scale := by
  refine h.congr ?_
  rcases Nat.lt_or_gt_of_ne hne with hlt | hgt
  · refine region_writeRegion_of_before ?_
    rw [← Nat.succ_mul]
    exact Nat.mul_le_mul_right _ hlt
  · refine region_writeRegion_of_after ?_
    rw [hsource, ← Nat.succ_mul]
    exact Nat.mul_le_mul_right _ hgt

end Fp4ScaleEncodingV1

/-! ### Choosing a scale -/

/-- The largest magnitude of finite values is finite and has no sign. -/
theorem groupAmax_spec {values : List F32} (h : ∀ value ∈ values, value.isFinite = true) :
    (groupAmax values).isFinite = true ∧ (groupAmax values).negative = false := by
  have hfold : ∀ acc : F32, acc.isFinite = true → acc.negative = false →
      (values.foldl (fun max value => max.max value.abs) acc).isFinite = true ∧
        (values.foldl (fun max value => max.max value.abs) acc).negative = false := by
    induction values with
    | nil => exact fun acc hfinite hsign => ⟨hfinite, hsign⟩
    | cons value values ih =>
      intro acc hfinite hsign
      refine ih (fun v hv => h v (List.mem_cons_of_mem value hv)) (acc.max value.abs) ?_ ?_
      · exact Binary.isFinite_max hfinite (h value List.mem_cons_self)
      · exact Binary.negative_max hsign rfl
  exact hfold (.zero false) rfl rfl

private theorem one_le_units_max : 2 ^ binary32.point ≤ fp4E2m1MaxMagnitude.units := by
  decide +kernel

/-- The search for an exponent ends below the exponent that marks an invalid scale. -/
theorem raiseExponent_le {amax : F64} {group left e : ℕ}
    (h : raiseExponent amax group left = .ok e) : e ≤ 254 := by
  induction left with
  | zero =>
    rw [raiseExponent] at h
    split_ifs at h
    · exact absurd h nofun
    · exact (Except.pure_eq_ok_iff.1 h).symm.le
  | succ left ih =>
    rw [raiseExponent] at h
    split_ifs at h
    · exact ih h
    · rw [← Except.pure_eq_ok_iff.1 h]
      exact Nat.sub_le _ _

/-- The stored bytes of a chosen scale are a valid scale of its value. -/
theorem chooseScale_spec {log2Ceil : F64 → ℤ} {encoding : Fp4ScaleEncodingV1} {values : List F32}
    {group : ℕ} {scale : F64} {bytes : List UInt8}
    (hfinite : ∀ value ∈ values, value.isFinite = true)
    (h : chooseScale log2Ceil encoding values group = .ok (scale, bytes)) {scales : List UInt8}
    {index : ℕ} (hregion : region scales (index * encoding.bytes) encoding.bytes =
      region bytes 0 encoding.bytes) : encoding.HasScale scales index scale := by
  obtain ⟨hamax, hsign⟩ := groupAmax_spec hfinite
  have hmax : fp4E2m1MaxMagnitude.isFinite = true := by decide +kernel
  cases encoding with
  | f32 =>
    simp only [chooseScale, Except.pure_eq_ok_iff, Prod.mk.injEq] at h
    obtain ⟨rfl, rfl⟩ := h
    refine ⟨_, _, _, _, hregion, ?_⟩
    rw [F32.ofLeBytes_toLeBytes]
    split_ifs
    · exact ⟨by decide +kernel, by decide +kernel, rfl⟩
    · refine ⟨Binary.isFinite_div hamax hmax one_le_units_max, ?_, rfl⟩
      rw [Binary.negative_div hamax hmax one_le_units_max, hsign]
      decide +kernel
  | e8m0 =>
    simp only [chooseScale] at h
    split_ifs at h
    · simp only [Except.pure_eq_ok_iff, Prod.mk.injEq] at h
      obtain ⟨rfl, rfl⟩ := h
      exact ⟨0, hregion, by decide, rfl⟩
    · simp only [Except.bind_eq_ok_iff, Except.pure_eq_ok_iff, Prod.mk.injEq] at h
      obtain ⟨e, he, rfl, rfl⟩ := h
      have hle := raiseExponent_le he
      have htoNat : (UInt8.ofNat e).toNat = e :=
        UInt8.toNat_ofNat_of_lt (Nat.lt_of_le_of_lt hle (by decide))
      refine ⟨UInt8.ofNat e, hregion, ?_, by rw [htoNat]⟩
      intro hbad
      have h255 : e = 255 := htoNat.symm.trans (congrArg UInt8.toNat hbad)
      omega

end NNIS
