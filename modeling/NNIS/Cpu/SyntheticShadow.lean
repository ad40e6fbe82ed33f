import NNIS.Cpu.KvFp4Shadow
import NNIS.Cpu.SyntheticModel

/-!
# The FP4 shadow of one-hot rows

A group whose values are zero or one has one of two scales, under which both values are codes: the
four-bit block of a matrix of zeros and ones is decoded to the matrix itself, under either encoding
of the scales. The shadow of a synthetic session is therefore lossless, and its synchronization
fails for want of memory only.

## Main results

* `Fp4Shape.projection_of_units` — a matrix of zeros and ones is its own projection.
* `Fp4E2M1KvLayoutV1.exists_new_of_le` — a mode that admits one row admits up to 1024 rows.
* `PortableFp4KvShadowV1.syncFromDense_units` — what a synchronization leaves.
-/

set_option autoImplicit false

namespace NNIS

open CpuPortableSession Outcome

/-! ### Groups of zeros and ones -/

/-- Zero, or the weight of the model. -/
def IsUnitWord (x : F32) : Prop := x = .zero false ∨ x = unitWeight

theorem isUnitWord_indicator (p : Prop) [Decidable p] :
    IsUnitWord (SyntheticPortableModelSpecV1.indicator p) := by
  rw [SyntheticPortableModelSpecV1.indicator]
  split_ifs
  · exact .inr rfl
  · exact .inl (Binary.ofNat_zero binary32)

private theorem max_abs_unit : (Binary.zero false : F32).max unitWeight.abs = unitWeight ∧
    (Binary.zero false : F32).max (Binary.zero false : F32).abs = .zero false ∧
    unitWeight.max unitWeight.abs = unitWeight ∧
    unitWeight.max (Binary.zero false : F32).abs = unitWeight := by
  decide +kernel

/-- The largest magnitude of zeros and ones. -/
theorem groupAmax_of_units {values : List F32} (h : ∀ value ∈ values, IsUnitWord value) :
    (groupAmax values = .zero false ∧ ∀ value ∈ values, value = .zero false) ∨
      groupAmax values = unitWeight := by
  obtain ⟨h₀₁, h₀₀, h₁₁, h₁₀⟩ := max_abs_unit
  have hone {values : List F32} (h : ∀ value ∈ values, IsUnitWord value) :
      values.foldl (fun max value => max.max value.abs) unitWeight = unitWeight := by
    induction values with
    | nil => rfl
    | cons value values ih =>
      rw [List.forall_mem_cons] at h
      rcases h.1 with rfl | rfl
      · rw [List.foldl_cons, h₁₀, ih h.2]
      · rw [List.foldl_cons, h₁₁, ih h.2]
  rw [groupAmax]
  induction values with
  | nil => exact .inl ⟨rfl, by simp⟩
  | cons value values ih =>
    rw [List.forall_mem_cons] at h
    rcases h.1 with rfl | rfl
    · rw [List.foldl_cons, h₀₀]
      refine (ih h.2).imp_left fun hzero => ⟨hzero.1, ?_⟩
      exact List.forall_mem_cons.2 ⟨rfl, hzero.2⟩
    · rw [List.foldl_cons, h₀₁]
      exact .inr (hone h.2)

/-- Under the scale of its group a value zero or one is a code. -/
theorem decodeCode_quantize_unit (encoding : Fp4ScaleEncodingV1) {values : List F32}
    (h : ∀ value ∈ values, IsUnitWord value) {value : F32} (hvalue : value ∈ values) :
    decodeCode (quantize value (encoding.groupScale values)) (encoding.groupScale values) =
      value := by
  rcases groupAmax_of_units h with ⟨hamax, hzero⟩ | hamax
  · rw [hzero value hvalue]
    cases encoding with
    | f32 =>
      rw [Fp4ScaleEncodingV1.groupScale, hamax]
      decide +kernel
    | e8m0 =>
      rw [Fp4ScaleEncodingV1.groupScale, hamax]
      decide +kernel
  · cases encoding with
    | f32 =>
      rw [Fp4ScaleEncodingV1.groupScale, hamax]
      rcases h value hvalue with rfl | rfl <;> decide +kernel
    | e8m0 =>
      rw [Fp4ScaleEncodingV1.groupScale, hamax]
      rcases h value hvalue with rfl | rfl <;> decide +kernel

/-- A matrix of zeros and ones is its own projection. -/
theorem Fp4Shape.projection_of_units (shape : Fp4Shape) (hsize : 0 < shape.groupSize)
    {values : List F32} (hlength : values.length = shape.rows * shape.rowWidth)
    (h : ∀ value ∈ values, IsUnitWord value) : shape.projection values = values := by
  refine List.ext_getElem (by rw [shape.length_projection, hlength]) fun place hplace hplace' => ?_
  have hlt : place < shape.rows * shape.rowWidth := hlength ▸ hplace'
  have hwidth : 0 < shape.rowWidth := Nat.pos_of_mul_pos_left (Nat.zero_lt_of_lt hlt)
  have hrow : place / shape.rowWidth < shape.rows := (Nat.div_lt_iff_lt_mul hwidth).2 hlt
  have hposition : place % shape.rowWidth < shape.rowWidth := Nat.mod_lt place hwidth
  have hvalue : (shape.rowOf values (place / shape.rowWidth)).getD
    (place % shape.rowWidth) default =
      values[place] := by
    rw [shape.getD_rowOf values hposition, Nat.div_add_mod', List.getD_eq_getElem?_getD,
      List.getElem?_eq_getElem hplace', Option.getD_some]
  have hmem := shape.getD_mem_groupOf (shape.length_rowOf hlength hrow) hsize hposition
  have hgroup : ∀ value ∈ shape.groupOf (shape.rowOf values (place / shape.rowWidth))
      (place % shape.rowWidth / shape.groupSize), IsUnitWord value := fun value hvalue =>
    h value (List.mem_of_mem_drop (List.mem_of_mem_take
      (List.mem_of_mem_drop (List.mem_of_mem_take hvalue))))
  have hcode := decodeCode_quantize_unit shape.scaleEncoding hgroup hmem
  simp only [Fp4Shape.projection, List.getElem_map, List.getElem_range, Fp4Shape.projectionAt,
    Fp4Shape.codeAt, Fp4Shape.scaleAt]
  rw [hcode, hvalue]

/-! ### Layouts -/

namespace Fp4E2M1KvLayoutV1

/-- The storage of a small shape is computed. -/
theorem exists_storage_of_le {shape : Fp4Shape} (hrows : shape.rows ≤ 1024)
    (hsize : 0 < shape.groupSize) (hle : shape.groupSize ≤ maxFp4GroupSize)
    (hwidth : shape.rowWidth ≤ 1024) : ∃ storage, shape.storage = .ok storage := by
  have hmax : maxFp4GroupSize ≤ 2 ^ 16 := by decide
  have hword : wordLimit = 2 ^ 64 := rfl
  have hdescriptor : fp4KvDescriptorBytes ≤ 2 ^ 16 := by decide
  have hgroups : shape.groupsPerRow ≤ 1024 := by
    refine (Nat.mod_le _ _).trans ((Nat.div_le_iff_le_mul_add_pred hsize).2 ?_)
    have := Nat.le_mul_of_pos_left 1024 hsize
    omega
  have hpadded : shape.paddedRowWidth ≤ 1024 * 2 ^ 16 := Nat.mul_le_mul hgroups (hle.trans hmax)
  have hcode : shape.codeBytesPerRow ≤ 1024 * 2 ^ 16 := (Nat.div_le_self _ _).trans hpadded
  have hbytes : shape.scaleEncoding.bytes ≤ 4 := by cases shape.scaleEncoding <;> decide
  have h₁ : shape.rows * shape.rowWidth ≤ 1024 * 1024 := Nat.mul_le_mul hrows hwidth
  have h₂ : shape.rows * (shape.paddedRowWidth - shape.rowWidth) ≤ 1024 * (1024 * 2 ^ 16) :=
    Nat.mul_le_mul hrows ((Nat.sub_le _ _).trans hpadded)
  have h₃ : shape.rows * shape.codeBytesPerRow ≤ 1024 * (1024 * 2 ^ 16) :=
    Nat.mul_le_mul hrows hcode
  have h₄ : shape.rows * shape.groupsPerRow ≤ 1024 * 1024 := Nat.mul_le_mul hrows hgroups
  have h₅ : shape.rows * shape.groupsPerRow * shape.scaleEncoding.bytes ≤ 1024 * 1024 * 4 :=
    Nat.mul_le_mul h₄ hbytes
  simp only [Fp4Shape.storage, Except.bind_eq_ok_iff, okOr_eq_ok_iff, checkedMul_eq_some_iff,
    Option.bind_eq_some_iff, checkedAdd_eq_some_iff, Except.pure_eq_ok_iff]
  exact ⟨_, _, ⟨rfl, by omega⟩, _, ⟨rfl, by omega⟩, _, ⟨rfl, by omega⟩, _, ⟨rfl, by omega⟩, _,
    ⟨rfl, by omega⟩, _, ⟨_, ⟨rfl, by omega⟩, rfl, by omega⟩, rfl⟩

/-- A group size that is admitted for one row is admitted for up to 1024 rows. -/
theorem exists_new_of_le {rows width : ℕ} {groupSize : UInt32} {encoding : Fp4ScaleEncodingV1}
    {layout : Fp4E2M1KvLayoutV1} (h : new 1 (UInt32.ofNat width) groupSize encoding = .ok layout)
    (hrows : rows ≠ 0) (hle : rows ≤ 1024) (hwidth : width ≤ 1024) :
    ∃ layout, new (UInt64.ofNat rows) (UInt32.ofNat width) groupSize encoding = .ok layout := by
  have hshape := toFp4Shape_of_new h
  have hsize : layout.groupSize = groupSize.toNat := congrArg Fp4Shape.groupSize hshape
  have hcols : layout.rowWidth = (UInt32.ofNat width).toNat := congrArg Fp4Shape.rowWidth hshape
  have hwidthNat : (UInt32.ofNat width).toNat = width :=
    UInt32.toNat_ofNat_of_lt' (Nat.lt_of_le_of_lt hwidth (by decide))
  have hrowsNat : (UInt64.ofNat rows).toNat = rows :=
    UInt64.toNat_ofNat_of_lt' (Nat.lt_of_le_of_lt hle (by decide))
  have hgroup : ¬ (groupSize.toNat = 0 ∨ groupSize.toNat % 2 ≠ 0 ∨
      maxFp4GroupSize < groupSize.toNat) := by
    have h₁ := layout.groupSize_pos
    have h₂ := layout.groupSize_even
    have h₃ := layout.groupSize_le
    omega
  have hwidthPos : (UInt32.ofNat width).toNat ≠ 0 := hcols ▸ layout.rowWidth_pos.ne'
  obtain ⟨storage, hstorage⟩ : ∃ storage, Fp4Shape.storage
      ⟨(UInt64.ofNat rows).toNat, (UInt32.ofNat width).toNat, groupSize.toNat, encoding⟩ =
        .ok storage := by
    refine exists_storage_of_le ?_ (hsize ▸ layout.groupSize_pos) (hsize ▸ layout.groupSize_le) ?_
    · rw [hrowsNat]
      exact hle
    · rw [hwidthNat]
      exact hwidth
  rw [new]
  dsimp only
  rw [dif_neg (by rw [hrowsNat]; exact hrows), dif_neg hwidthPos, dif_neg hgroup]
  split
  · next heq => cases heq.symm.trans hstorage
  · exact ⟨_, rfl⟩

end Fp4E2M1KvLayoutV1

/-! ### Synchronization -/

variable {granted : Prop} {log2Ceil : F64 → ℤ}

/-- A matrix of zeros and ones is encoded, unless the host refuses the memory. -/
theorem CpuFp4E2M1KvBlockV1.encode_delivers (layout : Fp4E2M1KvLayoutV1) {values : List F32}
    (hlength : values.length = layout.rows * layout.rowWidth)
    (h : ∀ value ∈ values, IsUnitWord value) :
    Delivers granted (fun e => ∃ error, e = .error error) (encode log2Ceil layout values)
      fun _ => True := by
  have hfinite : ∀ value ∈ values, value.isFinite = true := by
    intro value hvalue
    rcases h value hvalue with rfl | rfl <;> decide +kernel
  intro host hhost
  obtain ⟨hrefused, hencoded⟩ := run_encode log2Ceil layout hlength hfinite host
  by_cases hrefuse : Refused host layout values
  · obtain ⟨e, host', hrun⟩ := hrefused hrefuse
    obtain ⟨error, rfl, -⟩ := (encode_spec log2Ceil layout values host).error rfl hrun
    rw [hrun]
    refine ⟨⟨error, rfl⟩, fun hg => ?_⟩
    have hgrants {k size : ℕ} : ¬ ∃ error, host.answer k size = .error error := by
      rintro ⟨error, herror⟩
      obtain ⟨capacity, hcapacity⟩ := hhost hg k size
      cases herror.symm.trans hcapacity
    rcases hrefuse with hcode | hscale | ⟨row, hrow, position, hposition, hnot⟩
    · exact hgrants hcode
    · exact hgrants hscale
    · have hvalue := layout.getD_projection values hrow hposition
      rw [layout.projection_of_units layout.groupSize_pos hlength h] at hvalue
      have hplace : row * layout.rowWidth + position < values.length :=
        calc row * layout.rowWidth + position
            < row * layout.rowWidth + layout.rowWidth := Nat.add_lt_add_left hposition _
          _ = (row + 1) * layout.rowWidth := (Nat.succ_mul ..).symm
          _ ≤ layout.rows * layout.rowWidth := Nat.mul_le_mul_right _ hrow
          _ = values.length := hlength.symm
      rw [List.getD_eq_getElem?_getD, List.getElem?_eq_getElem hplace, Option.getD_some] at hvalue
      rw [← hvalue, hfinite _ (List.getElem_mem hplace)] at hnot
      cases hnot
  · obtain ⟨block, -, -, -, hrun⟩ := hencoded hrefuse
    rw [hrun]
    exact ⟨trivial, fun hg => (hhost hg).rest.rest⟩

namespace PortableFp4KvShadowV1

variable {shadow : PortableFp4KvShadowV1} {cache : PortableKvCacheV1}

/-- The shadow has the dimensions of the cache, and a group size that its rows admit. -/
structure Fits (shadow : PortableFp4KvShadowV1) (cache : PortableKvCacheV1) : Prop where
  layers_eq : cache.layers = shadow.layers
  capacity_eq : cache.capacity = shadow.capacity
  rowWidth_eq : cache.rowWidth = shadow.rowWidth
  admits : ∃ layout, Fp4E2M1KvLayoutV1.new 1 (UInt32.ofNat shadow.rowWidth) shadow.groupSize
    shadow.scaleEncoding = .ok layout

/-- Under a host that grants all memory the shadow is decoded to the rows of the cache. -/
def Restores (shadow : PortableFp4KvShadowV1) (cache : PortableKvCacheV1) : Prop :=
  shadow.length = cache.length ∧ ∀ layer < cache.layers, ∀ host : Allocator, host.Grants →
    ((shadow.decodeLayer layer).run host).1 = .ok (cache.layerRows layer)

/-- A new shadow of a cache fits it. -/
theorem fits_of_new {mode : PortableKvStorageModeV1} (h : new cache mode = .ok (some shadow)) :
    shadow.Fits cache := by
  cases mode with
  | denseF32 => cases h
  | fp4E2M1 groupSize scaleEncoding =>
    obtain ⟨mode, hmode, hnew⟩ := Except.bind_eq_ok_iff.1 h
    obtain rfl := Option.some.inj (Except.ok.inj hnew)
    obtain ⟨-, -, hlayout⟩ := Except.bind_eq_ok_iff.1 hmode
    obtain ⟨layout, hlayout, -⟩ := Except.bind_eq_ok_iff.1 hlayout
    exact ⟨rfl, rfl, rfl, layout, wrap_eq_ok_iff.1 hlayout⟩

theorem Fits.exists_layout (h : shadow.Fits cache) (hlength : cache.length ≠ 0) :
    ∃ layout, shadow.layout cache.length = .ok layout := by
  obtain ⟨one, hone⟩ := h.admits
  have hle : cache.length ≤ 1024 := cache.length_le.trans cache.capacity_mem.2
  obtain ⟨layout, hlayout⟩ := Fp4E2M1KvLayoutV1.exists_new_of_le hone hlength hle
    (h.rowWidth_eq ▸ cache.rowWidth_mem.2)
  exact ⟨layout, wrap_eq_ok_iff.2 hlayout⟩

/-- Storing a layer keeps the dimensions. -/
theorem Fits.store (h : shadow.Fits cache) (layer : ℕ) (block : CpuFp4E2M1KvBlockV1) :
    (shadow.store layer block).Fits cache :=
  ⟨h.layers_eq, h.capacity_eq, h.rowWidth_eq, h.admits⟩

/-- A mirror of rows of zeros and ones is decoded to the rows. -/
theorem Fits.restores (h : shadow.Fits cache) (hlength : shadow.length = cache.length)
    (hunits : ∀ layer < cache.layers, ∀ value ∈ cache.layerRows layer, IsUnitWord value)
    (hmirrors : ∀ layer < cache.layers, shadow.Mirrors cache layer) : shadow.Restores cache := by
  refine ⟨hlength, fun layer hlayer host hhost => ?_⟩
  have hsize : 0 < shadow.groupSize.toNat := by
    obtain ⟨layout, hlayout⟩ := h.admits
    have hgroup : layout.groupSize = shadow.groupSize.toNat :=
      congrArg Fp4Shape.groupSize (Fp4E2M1KvLayoutV1.toFp4Shape_of_new hlayout)
    exact hgroup ▸ layout.groupSize_pos
  have hrows : (cache.layerRows layer).length = cache.length * shadow.rowWidth := by
    rw [cache.length_layerRows hlayer, h.rowWidth_eq]
  have hprojection : (shadow.shape cache.length).projection (cache.layerRows layer) =
      cache.layerRows layer :=
    (shadow.shape cache.length).projection_of_units hsize hrows (hunits layer hlayer)
  rcases hmirrors layer hlayer host with hok | ⟨⟨error, herror⟩, -⟩
  · rw [hok, hprojection]
  · obtain ⟨capacity, hcapacity⟩ := hhost 0 (cache.length * cache.rowWidth)
    cases herror.symm.trans hcapacity

/-- An empty shadow of an empty cache. -/
theorem Fits.restores_empty (h : shadow.Fits cache) (hlength : shadow.length = 0)
    (hempty : cache.length = 0) : shadow.Restores cache := by
  refine ⟨hlength.trans hempty.symm, fun layer hlayer host _ => ?_⟩
  have hlayer' : layer < shadow.layers := hlayer.trans_eq h.layers_eq
  have hrows : cache.layerRows layer = [] := by
    rw [← List.length_eq_zero_iff, cache.length_layerRows hlayer, hempty, Nat.zero_mul]
  rw [decodeLayer, require_of _ hlayer', Fallible.ofExcept_ok_bind, if_pos hlength, hrows]
  rfl

theorem length_of_new {mode : PortableKvStorageModeV1} (h : new cache mode = .ok (some shadow)) :
    shadow.length = 0 := by
  cases mode with
  | denseF32 => cases h
  | fp4E2M1 groupSize scaleEncoding =>
    obtain ⟨mode, hmode, hnew⟩ := Except.bind_eq_ok_iff.1 h
    obtain rfl := Option.some.inj (Except.ok.inj hnew)
    rfl

private theorem isBackend_shadowError (action : String) {e : Stop CpuFp4Error}
    (h : ∃ error, e = .error error) : IsBackend (shadowError action e) := by
  obtain ⟨error, rfl⟩ := h
  exact ⟨_, rfl⟩

/-- The dimensions of a shadow, and a host that grants memory if it is to. -/
private def Kept (granted : Prop) (cache : PortableKvCacheV1)
    (s : PortableFp4KvShadowV1 × Allocator) : Prop :=
  s.1.Fits cache ∧ (granted → s.2.Grants)

private theorem syncLayer_delivers {layout : Fp4E2M1KvLayoutV1}
    (hrows : layout.rows = cache.length) (hwidth : layout.rowWidth = cache.rowWidth) {layer : ℕ}
    (hlayer : layer < cache.layers) (hunits : ∀ value ∈ cache.layerRows layer, IsUnitWord value) :
    Fallible.Spec (Kept granted cache) (syncLayer log2Ceil cache layout layer)
      (fun _ => Kept granted cache) fun e s => s.1.Fits cache ∧ IsBackend e ∧ ¬ granted := by
  refine Fallible.Spec.of_forall fun s₀ hs₀ => ?_
  rw [syncLayer, cache.layerPrefix_eq hlayer, Fallible.ofExcept_ok_bind]
  have hlength : (cache.layerRows layer).length = layout.rows * layout.rowWidth := by
    rw [cache.length_layerRows hlayer, hrows, hwidth]
  have hencode : Delivers granted IsBackend ((CpuFp4E2M1KvBlockV1.encode log2Ceil layout
      (cache.layerRows layer)).mapError (shadowError "encode")) fun _ => True :=
    (CpuFp4E2M1KvBlockV1.encode_delivers layout hlength hunits).mapError fun _ =>
      isBackend_shadowError "encode"
  have hzoom : Fallible.Spec _ (((CpuFp4E2M1KvBlockV1.encode log2Ceil layout
      (cache.layerRows layer)).mapError (shadowError "encode")).zoom Prod.snd
        fun host (s : PortableFp4KvShadowV1 × Allocator) => (s.1, host)) _ _ :=
    Fallible.Spec.zoom s₀ hencode
  refine (hzoom.conseq (fun _ hs => ⟨hs, hs ▸ hs₀.2⟩) (fun _ _ h => h) ?_).bind fun block => ?_
  · rintro e _ ⟨host, he, rfl⟩
    exact ⟨hs₀.1, he⟩
  · refine Fallible.Spec.modify _ ?_
    rintro _ ⟨host, ⟨-, hhost⟩, rfl⟩
    exact ⟨hs₀.1.store layer block, hhost⟩

/-- A synchronization with rows of zeros and ones restores them, unless the host refuses the
memory. -/
theorem syncFromDense_units
    (hunits : ∀ layer < cache.layers, ∀ value ∈ cache.layerRows layer, IsUnitWord value) :
    Fallible.Spec (fun s => s.1.Fits cache ∧ (granted → s.2.Grants)) (syncFromDense log2Ceil cache)
      (fun _ s => (s.1.Fits cache ∧ s.1.Restores cache) ∧ (granted → s.2.Grants))
      fun e s => s.1.Fits cache ∧ IsBackend e ∧ ¬ granted := by
  refine Fallible.Spec.of_forall fun s₀ hs₀ => ?_
  have hmirrors := syncFromDense_spec log2Ceil s₀.1 cache s₀.2
  have hkept : Fallible.Spec (fun s => s = s₀) (syncFromDense log2Ceil cache)
      (fun _ => Kept granted cache) fun e s => s.1.Fits cache ∧ IsBackend e ∧ ¬ granted := by
    have hlengthLt : cache.length < wordLimit :=
      Nat.lt_of_le_of_lt (cache.length_le.trans cache.capacity_mem.2) (by decide)
    have hwidthLt : s₀.1.rowWidth < 2 ^ 32 :=
      hs₀.1.rowWidth_eq ▸ Nat.lt_of_le_of_lt cache.rowWidth_mem.2 (by decide)
    rw [syncFromDense]
    refine Fallible.Spec.get_bind ?_
    dsimp only
    rw [require_of _ ⟨hs₀.1.layers_eq, hs₀.1.capacity_eq, hs₀.1.rowWidth_eq⟩,
      Fallible.ofExcept_ok_bind]
    by_cases hzero : cache.length = 0
    · rw [if_pos hzero]
      rintro s rfl
      exact ⟨⟨hs₀.1.layers_eq, hs₀.1.capacity_eq, hs₀.1.rowWidth_eq, hs₀.1.admits⟩, hs₀.2⟩
    obtain ⟨layout, hlayout⟩ := hs₀.1.exists_layout hzero
    have hshape := toFp4Shape_of_layout hlayout hlengthLt hwidthLt
    rw [if_neg hzero, require_of _ hlengthLt, Fallible.ofExcept_ok_bind, require_of _ hwidthLt,
      Fallible.ofExcept_ok_bind, hlayout, Fallible.ofExcept_ok_bind]
    have hrows : layout.rows = cache.length := by rw [hshape]; rfl
    have hcols : layout.rowWidth = cache.rowWidth := by rw [hshape, hs₀.1.rowWidth_eq]; rfl
    have hloop : Fallible.Spec _ (Fallible.forRange s₀.1.layers fun layer =>
        syncLayer log2Ceil cache layout layer) _ _ :=
      Fallible.Spec.forRange (fun _ => Kept granted cache) s₀.1.layers
      fun layer hlayer => syncLayer_delivers hrows hcols (hs₀.1.layers_eq ▸ hlayer)
        (hunits layer (hs₀.1.layers_eq ▸ hlayer))
    refine (hloop.conseq ?_ (fun _ _ h => h) fun _ _ h => h).bind fun _ =>
      Fallible.Spec.modify _ fun s hs => ?_
    · rintro s rfl
      exact hs₀
    exact ⟨⟨hs.1.layers_eq, hs.1.capacity_eq, hs.1.rowWidth_eq, hs.1.admits⟩, hs.2⟩
  rintro s rfl
  have hpost := hkept s rfl
  rcases hrun : (syncFromDense log2Ceil cache).run s with ⟨e | _, s'⟩
  · rw [hrun] at hpost
    exact hpost
  · rw [hrun] at hpost
    obtain ⟨⟨hlength, hlayers⟩, -⟩ := hmirrors.ok rfl hrun
    exact ⟨⟨hpost.1, hpost.1.restores hlength hunits hlayers⟩, hpost.2⟩

end PortableFp4KvShadowV1

end NNIS
