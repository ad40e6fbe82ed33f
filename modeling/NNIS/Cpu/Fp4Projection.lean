import NNIS.Cpu.Fp4KvEncode
import NNIS.Cpu.Fp4KvRoundTrip
import NNIS.Cpu.Fp4Quantize

/-!
# The projection of a matrix onto FP4

A block that encodes a matrix is decoded to the projection of the matrix: at each place a multiple
of the scale of its group, rounded once, under the sign of the value there. The scale is counted in
smallest positive magnitudes of single precision, for both encodings.

## Main definitions

* `Fp4ScaleEncodingV1.scaleUnits` — the scale of a group.
* `Fp4Shape.projection` — the projection of a matrix.

## Main results

* `Fp4Shape.exists_projectionAt` — the value at a place of the projection.
* `CpuFp4E2M1KvBlockV1.Encodes.run_decode` — a block is decoded to the projection of its matrix.
* `CpuFp4E2M1KvBlockV1.run_encode` — when an encoding is refused.
-/

set_option autoImplicit false

namespace NNIS

/-! ### Scales -/

private theorem units_fp4E2m1MaxMagnitude :
    fp4E2m1MaxMagnitude.isFinite = true ∧ fp4E2m1MaxMagnitude.negative = false ∧
      fp4E2m1MaxMagnitude.units = 6 * 2 ^ 149 := by
  decide +kernel

/-- A sixth of the largest magnitude. -/
private theorem div_max_eq {amax : F32} (hfinite : amax.isFinite = true)
    (hsign : amax.negative = false) :
    amax.div fp4E2m1MaxMagnitude = .rounded false amax.units 6 := by
  obtain ⟨hmax, hmaxSign, hunits⟩ := units_fp4E2m1MaxMagnitude
  have hpoint : binary32.point = 149 := rfl
  rw [Binary.div_eq_rounded_of_ne_zero hfinite hmax (by rw [hunits]; decide), hunits, hpoint,
    Binary.rounded_mul_right _ _ _ (Nat.two_pow_pos 149), hsign, hmaxSign]
  rfl

/-- The scale of a largest magnitude in single precision is a sixth of it, but not zero unless the
magnitude is. -/
theorem f32Scale_spec {amax : F32} (hfinite : amax.isFinite = true)
    (hsign : amax.negative = false) :
    (f32Scale amax).isFinite = true ∧ (f32Scale amax).negative = false ∧
      binary32.round amax.units 6 < binary32.infinity ∧
      (amax.units = 0 ∨ binary32.round amax.units 6 ≠ 0 →
        (f32Scale amax).units = binary32.units (binary32.round amax.units 6)) ∧
      (0 < amax.units → binary32.round amax.units 6 = 0 → (f32Scale amax).units = 1) := by
  have hdiv := div_max_eq hfinite hsign
  have hle : binary32.round amax.units 6 ≤ amax.magnitude :=
    Format.round_le _ (by decide) (Nat.le_mul_of_pos_right _ (by decide))
  have hzero : (Binary.zero false).lt amax = true ↔ 0 < amax.units := by
    rw [Binary.lt_iff_units_lt (by decide +kernel) hfinite rfl hsign]
    exact Iff.of_eq (congrArg (· < amax.units) Format.units_zero)
  have hisZero : (amax.div fp4E2m1MaxMagnitude).isZero = true ↔
      binary32.round amax.units 6 = 0 := by
    rw [hdiv]
    exact decide_eq_true_iff
  have hlt : binary32.round amax.units 6 < binary32.infinity :=
    hle.trans_lt (of_decide_eq_true hfinite)
  have hfin : (Binary.rounded false amax.units 6 : F32).isFinite = true := decide_eq_true hlt
  rw [f32Scale]
  by_cases hsmall : 0 < amax.units ∧ binary32.round amax.units 6 = 0
  · rw [if_pos (Bool.and_eq_true_iff.2 ⟨hzero.2 hsmall.1, hisZero.2 hsmall.2⟩)]
    refine ⟨by decide +kernel, by decide +kernel, hlt, fun h => ?_, fun _ _ => by decide +kernel⟩
    exact absurd hsmall fun hs => h.elim hs.1.ne' fun h' => h' hs.2
  · rw [if_neg fun h => hsmall ⟨hzero.1 (Bool.and_eq_true_iff.1 h).1,
      hisZero.1 (Bool.and_eq_true_iff.1 h).2⟩, hdiv]
    exact ⟨hfin, rfl, hlt, fun _ => rfl, fun hpos hround => absurd ⟨hpos, hround⟩ hsmall⟩

/-- The scale of a group of values, in smallest positive magnitudes. -/
def Fp4ScaleEncodingV1.scaleUnits (encoding : Fp4ScaleEncodingV1) (values : List F32) : ℕ :=
  match encoding with
  | .f32 => (f32Scale (groupAmax values)).units
  | .e8m0 => 2 ^ (leastExponent (groupAmax values).units + 22)

/-- The scale of a group of finite values is a positive value of single precision, or zero. -/
theorem Fp4ScaleEncodingV1.units_groupScale (encoding : Fp4ScaleEncodingV1) {values : List F32}
    (h : ∀ value ∈ values, value.isFinite = true) :
    (encoding.groupScale values).isFinite = true ∧ (encoding.groupScale values).negative = false ∧
      (encoding.groupScale values).units = encoding.scaleUnits values * 2 ^ 925 ∧
      F32.Digits (encoding.scaleUnits values) := by
  obtain ⟨hfinite, hsign⟩ := groupAmax_spec h
  cases encoding with
  | f32 =>
    obtain ⟨hscale, hscaleSign, -⟩ := f32Scale_spec hfinite hsign
    obtain ⟨hunits, hwide, hwideSign⟩ := F32.convert_binary64 hscale
    exact ⟨hwide, hwideSign.trans hscaleSign, hunits, F32.digits_units hscale⟩
  | e8m0 =>
    have hle := leastExponent_le (F32.units_lt_two_pow hfinite)
    obtain ⟨hfin, hneg, hunits⟩ := units_pow2 (Nat.lt_of_le_of_lt hle (by decide))
    exact ⟨hfin, hneg, hunits, F32.digits_two_pow (by omega)⟩

/-! ### Places -/

namespace Fp4Shape

variable (shape : Fp4Shape)

theorem finite_rowOf {values : List F32} (h : ∀ value ∈ values, value.isFinite = true) (row : ℕ) :
    ∀ value ∈ shape.rowOf values row, value.isFinite = true :=
  fun value hvalue => h value (List.mem_of_mem_drop (List.mem_of_mem_take hvalue))

theorem finite_groupOf {rowValues : List F32} (h : ∀ value ∈ rowValues, value.isFinite = true)
    (group : ℕ) : ∀ value ∈ shape.groupOf rowValues group, value.isFinite = true :=
  fun value hvalue => h value (List.mem_of_mem_drop (List.mem_of_mem_take hvalue))

theorem length_rowOf {values : List F32} (h : values.length = shape.rows * shape.rowWidth) {row : ℕ}
    (hrow : row < shape.rows) : (shape.rowOf values row).length = shape.rowWidth := by
  have hmul : (row + 1) * shape.rowWidth ≤ shape.rows * shape.rowWidth :=
    Nat.mul_le_mul_right _ hrow
  rw [Nat.succ_mul] at hmul
  exact length_region (by omega)

theorem getD_rowOf (values : List F32) {row position : ℕ} (h : position < shape.rowWidth) :
    (shape.rowOf values row).getD position default =
      values.getD (row * shape.rowWidth + position) default := by
  rw [List.getD_eq_getElem?_getD, List.getD_eq_getElem?_getD, rowOf, getElem?_region values h]

/-- The value at a position of a row belongs to the group of the position. -/
theorem getD_mem_groupOf {rowValues : List F32} (hlength : rowValues.length = shape.rowWidth)
    (hsize : 0 < shape.groupSize) {position : ℕ} (hposition : position < shape.rowWidth) :
    rowValues.getD position default ∈ shape.groupOf rowValues (position / shape.groupSize) := by
  have hdiv : position / shape.groupSize * shape.groupSize + position % shape.groupSize =
      position := Nat.div_add_mod' position shape.groupSize
  have hmod := Nat.mod_lt position hsize
  have hget : (shape.groupOf rowValues (position / shape.groupSize))[position % shape.groupSize]? =
      rowValues[position]? := by
    rw [groupOf, getElem?_region rowValues (by omega), hdiv]
  rw [List.getD_eq_getElem?_getD, ← hget]
  have hlt : position < rowValues.length := hlength ▸ hposition
  rw [List.getElem?_eq_getElem hlt] at hget
  rw [hget]
  exact List.mem_of_getElem? hget

/-- The values of a group are those at its positions. -/
theorem mem_groupOf_iff {rowValues : List F32} (hlength : rowValues.length = shape.rowWidth)
    (hsize : 0 < shape.groupSize) {group : ℕ} {value : F32} :
    value ∈ shape.groupOf rowValues group ↔ ∃ position < shape.rowWidth,
      position / shape.groupSize = group ∧ rowValues.getD position default = value := by
  constructor
  · intro hmem
    obtain ⟨i, hi, hget⟩ := List.mem_iff_getElem?.1 hmem |>.imp fun i hi =>
      (⟨(List.getElem?_eq_some_iff.1 hi).1, hi⟩ : _ ∧ _)
    have hlt := hi
    rw [groupOf, region, List.length_take, List.length_drop, hlength] at hlt
    rw [groupOf, getElem?_region rowValues (by omega)] at hget
    refine ⟨group * shape.groupSize + i, by omega, ?_, ?_⟩
    · rw [Nat.mul_comm, Nat.mul_add_div hsize, Nat.div_eq_of_lt (by omega), Nat.add_zero]
    · rw [List.getD_eq_getElem?_getD, hget, Option.getD_some]
  · rintro ⟨position, hposition, rfl, rfl⟩
    exact shape.getD_mem_groupOf hlength hsize hposition

/-- The value at a place of the projection is a multiple of the scale under the sign of the value
there, the multiple being that of the cell of the value. -/
theorem exists_projectionAt {rowValues : List F32}
    (hfinite : ∀ value ∈ rowValues, value.isFinite = true)
    (hlength : rowValues.length = shape.rowWidth) (hsize : 0 < shape.groupSize) {position : ℕ}
    (hposition : position < shape.rowWidth) :
    let group := shape.groupOf rowValues (position / shape.groupSize)
    let value := rowValues.getD position default
    value ∈ group ∧ ∃ code < 8,
      shape.codeAt rowValues position = fp4SignBit value.negative ||| UInt8.ofNat code ∧
      shape.projectionAt rowValues position =
        .rounded value.negative (fp4Halves[code]! * shape.scaleEncoding.scaleUnits group) 2 ∧
      (shape.scaleEncoding.scaleUnits group = 0 → code = 0) ∧
      (0 < shape.scaleEncoding.scaleUnits group →
        InCell value.units (shape.scaleEncoding.scaleUnits group) code) := by
  intro group value
  have hmem : value ∈ group := shape.getD_mem_groupOf hlength hsize hposition
  have hgroup : ∀ value ∈ group, value.isFinite = true := fun value hvalue =>
    hfinite value (List.mem_of_mem_drop (List.mem_of_mem_take hvalue))
  obtain ⟨hscale, hsign, hunits, hdigits⟩ := shape.scaleEncoding.units_groupScale hgroup
  obtain ⟨code, hcode, heq, hzero, hcell⟩ :=
    quantize_spec (hgroup value hmem) hscale hsign hunits hdigits
  obtain ⟨code', hcode', heq', hzero', hcell'⟩ :=
    decodeCode_quantize (hgroup value hmem) hscale hsign hunits hdigits
  refine ⟨hmem, code, hcode, heq, ?_, hzero, hcell⟩
  have hsame : code' = code := by
    rcases Nat.eq_zero_or_pos (shape.scaleEncoding.scaleUnits group) with h0 | hpos
    · rw [hzero h0, hzero' h0]
    · exact (hcell' hpos).unique (hcell hpos) hpos
  rw [← hsame]
  exact heq'

/-- The projection of a matrix. -/
def projection (values : List F32) : List F32 :=
  (List.range (shape.rows * shape.rowWidth)).map fun place =>
    shape.projectionAt (shape.rowOf values (place / shape.rowWidth)) (place % shape.rowWidth)

theorem getD_projection (values : List F32) {row position : ℕ} (hrow : row < shape.rows)
    (h : position < shape.rowWidth) :
    (shape.projection values).getD (row * shape.rowWidth + position) default =
      shape.projectionAt (shape.rowOf values row) position := by
  have hlt : row * shape.rowWidth + position < shape.rows * shape.rowWidth := by
    have hmul : (row + 1) * shape.rowWidth ≤ shape.rows * shape.rowWidth :=
      Nat.mul_le_mul_right _ hrow
    rw [Nat.succ_mul] at hmul
    omega
  rw [List.getD_eq_getElem?_getD, projection, List.getElem?_map, List.getElem?_range hlt,
    Option.map_some, Option.getD_some, Nat.mul_comm row, Nat.mul_add_div (Nat.zero_lt_of_lt h),
    Nat.div_eq_of_lt h, Nat.mul_add_mod, Nat.mod_eq_of_lt h, Nat.add_zero]

end Fp4Shape

theorem Fp4Shape.length_projection (shape : Fp4Shape) (values : List F32) :
    (shape.projection values).length = shape.rows * shape.rowWidth := by
  rw [Fp4Shape.projection, List.length_map, List.length_range]

namespace CpuFp4E2M1KvBlockV1

/-- A block is decoded to the projection of the matrix that it encodes, unless the host refuses the
memory. -/
theorem Encodes.run_decode {block : CpuFp4E2M1KvBlockV1} {values : List F32}
    (h : block.Encodes values) (host : Allocator) :
    ((∃ capacity, host.answer 0 (block.layout.rows * block.layout.rowWidth) = .ok capacity) ∧
      (block.decode.run host).1 = .ok (block.layout.projection values)) ∨
    ((∃ error, host.answer 0 (block.layout.rows * block.layout.rowWidth) = .error error) ∧
      (block.decode.run host).1 = .error (.error .allocationFailed)) := by
  obtain ⟨decoded, hlength, hdecoded, hrun⟩ := decode_values h.wellFormed
  have heq : decoded = block.layout.projection values := by
    refine List.ext_getElem? fun i => ?_
    rw [Fp4Shape.projection, List.getElem?_map]
    rcases Nat.lt_or_ge i decoded.length with hlt | hge
    · have hwidth := block.layout.rowWidth_pos
      have hrow : i / block.layout.rowWidth < block.layout.rows := by
        rwa [Nat.div_lt_iff_lt_mul hwidth, ← hlength]
      have hposition := Nat.mod_lt i hwidth
      obtain ⟨scale, hscale, hget⟩ := hdecoded i hlt
      have hsame := (block.scale_eq_ok_iff.2 hscale).symm.trans
        (block.scale_eq_ok_iff.2 (h.hasScale _ hrow _ hposition))
      rw [hget, List.getElem?_range (hlength ▸ hlt), h.code_eq _ hrow _ hposition,
        Except.ok.inj hsame]
      rfl
    · rw [List.getElem?_eq_none hge, List.getElem?_eq_none
        (by rwa [List.length_range, ← hlength])]
      rfl
  rw [heq] at hrun
  exact hrun host

/-- The host refuses the memory for a block, or a value of the matrix does not decode to a finite
value. -/
def Refused (host : Allocator) (layout : Fp4E2M1KvLayoutV1) (values : List F32) : Prop :=
  (∃ error, host.answer 0 layout.exactStorage.codeBytes = .error error) ∨
    (∃ error, host.answer 1 layout.exactStorage.scaleBytes = .error error) ∨
      ∃ row < layout.rows, ∃ position < layout.rowWidth,
        (layout.projectionAt (layout.rowOf values row) position).isFinite = false

/-- One of two outcomes, by the answer of the host. -/
private def afterMemory {ε α β : Type} (answer : Except ε α) (refused granted : β) : β :=
  match answer with
  | .error _ => refused
  | .ok _ => granted

private theorem run_zeroed (host : Allocator) (len : ℕ) : (zeroed len).run host =
    afterMemory (host.answer 0 len) (.error (.error .allocationFailed), host.rest)
      (.ok (List.replicate len 0), host.rest) := by
  change ((tryReserveExact len >>= _) : Fp4M (List UInt8)).run host = _
  rw [Fallible.run_bind_ok rfl]
  cases host.answer 0 len <;> rfl

/-- Encoding a finite matrix of the right length asks the host for memory twice and depends on the
answers in no other way. -/
theorem run_encode (log2Ceil : F64 → ℤ) (layout : Fp4E2M1KvLayoutV1) {values : List F32}
    (hlength : values.length = layout.rows * layout.rowWidth)
    (hfinite : ∀ value ∈ values, value.isFinite = true) (host : Allocator) :
    (Refused host layout values →
      ∃ e host', (encode log2Ceil layout values).run host = (.error e, host')) ∧
    (¬ Refused host layout values → ∃ block, block.layout = layout ∧ block.Encodes values ∧
      ((encode log2Ceil layout values).run .granting).1 = .ok block ∧
      (encode log2Ceil layout values).run host = (.ok block, host.rest.rest)) := by
  obtain ⟨hvalues, hcodes, hscales⟩ := layout.sizes_lt
  have hstorage : Outcome.wrap CpuFp4Error.layout layout.storage = .ok layout.exactStorage := by
    rw [layout.storage_eq]
    rfl
  have hfind : values.findIdx? (fun value => !value.isFinite) = none :=
    List.findIdx?_eq_none_iff.2 fun value hvalue => by rw [hfinite value hvalue]; rfl
  obtain ⟨loop, hloop⟩ : ∃ loop : Outcome CpuFp4Error CpuFp4E2M1KvBlockV1,
      ∀ host, (encode log2Ceil layout values).run host =
        afterMemory (host.answer 0 layout.exactStorage.codeBytes)
          (.error (.error .allocationFailed), host.rest)
          (afterMemory (host.rest.answer 0 layout.exactStorage.scaleBytes)
            (.error (.error .allocationFailed), host.rest.rest) (loop, host.rest.rest)) := by
    refine ⟨(List.range (values.length / layout.rowWidth)).foldlM
      (encodeRow log2Ceil layout layout.codeBytesPerRow values)
      (List.replicate (layout.rows * layout.codeBytesPerRow) 0,
        List.replicate (layout.rows * layout.groupsPerRow * layout.scaleEncoding.bytes) 0) >>=
          fun state => .ok ⟨layout, state.1, state.2⟩, fun host => ?_⟩
    simp only [encode, hstorage, Fallible.ofExcept_ok_bind, Fp4E2M1KvLayoutV1.exactStorage,
      hostLen_of_lt hvalues, hostLen_of_lt hcodes, hostLen_of_lt hscales, hfind,
      hostLen_of_lt layout.codeBytesPerRow_lt, Outcome.require_of _ hlength]
    rw [Fallible.run_bind, run_zeroed]
    cases host.answer 0 (layout.rows * layout.codeBytesPerRow) with
    | error error => rfl
    | ok capacity =>
      simp only [afterMemory]
      rw [Fallible.run_bind, run_zeroed]
      cases host.rest.answer 0 (layout.rows * layout.groupsPerRow * layout.scaleEncoding.bytes) with
      | error error => rfl
      | ok capacity =>
        simp only [afterMemory]
        rw [Fallible.run_bind, Fallible.run_ofExcept]
        cases (List.range (values.length / layout.rowWidth)).foldlM
          (encodeRow log2Ceil layout layout.codeBytesPerRow values) _ <;> rfl
  have hgranting : ((encode log2Ceil layout values).run .granting).1 = loop := by
    rw [hloop]
    rfl
  have hrest : host.rest.answer 0 = host.answer 1 := rfl
  have hspec := fun host => encode_spec log2Ceil layout values host
  rw [hgranting, hloop, hrest]
  constructor
  · rintro (⟨error, h⟩ | ⟨error, h⟩ | ⟨row, hrow, position, hposition, hnot⟩)
    · rw [h]
      exact ⟨_, _, rfl⟩
    · cases host.answer 0 layout.exactStorage.codeBytes with
      | error error => exact ⟨_, _, rfl⟩
      | ok capacity =>
        rw [h]
        exact ⟨_, _, rfl⟩
    · rcases hrun : (encode log2Ceil layout values).run host with ⟨e | block, host'⟩
      · rw [← hrest, ← hloop, hrun]
        exact ⟨_, _, rfl⟩
      · obtain ⟨rfl, h⟩ := (hspec host).ok rfl hrun
        rw [h.projection_finite row hrow position hposition] at hnot
        cases hnot
  · intro hnot
    rcases hcode : host.answer 0 layout.exactStorage.codeBytes with error | capacity
    · exact absurd (Or.inl ⟨error, hcode⟩) hnot
    rcases hscale : host.answer 1 layout.exactStorage.scaleBytes with error | capacity'
    · exact absurd (Or.inr (Or.inl ⟨error, hscale⟩)) hnot
    have hrun : (encode log2Ceil layout values).run host = (loop, host.rest.rest) := by
      rw [hloop, hcode, hrest, hscale]
      rfl
    have hrun' : (encode log2Ceil layout values).run .granting = (loop, .granting) :=
      hloop .granting
    rcases loop with e | block
    · obtain ⟨e', rfl, hfailure⟩ := (hspec .granting).error rfl hrun'
      cases hfailure with
      | count hne => exact absurd hlength hne
      | nonFinite index _ hindex => cases hfind.symm.trans hindex
      | allocation round size error _ _ hanswer => cases hanswer
      | overflow row position _ _ hrow hposition hnotFinite =>
        exact absurd (Or.inr (Or.inr ⟨row, hrow, position, hposition, hnotFinite⟩)) hnot
    · obtain ⟨hlayout, h⟩ := (hspec host).ok rfl hrun
      exact ⟨block, hlayout, h, rfl, rfl⟩

private theorem oneValue_lt : 1 < 2 ^ 32 := by decide

/-- One value in a group of two. -/
def oneValueLayout (encoding : Fp4ScaleEncodingV1) : Fp4E2M1KvLayoutV1 where
  rows := 1
  rowWidth := 1
  groupSize := 2
  scaleEncoding := encoding
  rows_pos := Nat.one_pos
  rowWidth_pos := Nat.one_pos
  rowWidth_lt := oneValue_lt
  groupSize_pos := Nat.two_pos
  groupSize_even := by decide
  groupSize_le := by decide
  fits := by
    cases encoding
    · exact ⟨_, rfl⟩
    · exact ⟨_, rfl⟩

private theorem fourValues_lt : 4 < 2 ^ 32 := by decide

private theorem fourValues_pos : 0 < 4 := by decide

/-- The layout of four values in one group. -/
def fourValuesLayout (encoding : Fp4ScaleEncodingV1) : Fp4E2M1KvLayoutV1 where
  rows := 1
  rowWidth := 4
  groupSize := 4
  scaleEncoding := encoding
  rows_pos := Nat.one_pos
  rowWidth_pos := fourValues_pos
  rowWidth_lt := fourValues_lt
  groupSize_pos := fourValues_pos
  groupSize_even := rfl
  groupSize_le := by decide
  fits := by
    cases encoding
    · exact ⟨_, rfl⟩
    · exact ⟨_, rfl⟩

/-- One, minus two fifths, five and zero. -/
def fourValues : List F32 :=
  [.ofBits 0x3F800000, .ofBits 0xBECCCCCD, .ofBits 0x40A00000, .zero false]

/-- An encoding that succeeds on a host that grants all memory. -/
theorem exists_run_encode_eq {log2Ceil : F64 → ℤ} {layout : Fp4E2M1KvLayoutV1}
    {values : List F32}
    (h : (((encode log2Ceil layout values).run .granting).1).isOk = true) :
    ∃ block host', (encode log2Ceil layout values).run .granting = (.ok block, host') := by
  rcases hrun : (encode log2Ceil layout values).run .granting with ⟨_ | block, host'⟩
  · rw [hrun] at h
    exact nomatch h
  · exact ⟨block, host', rfl⟩

end CpuFp4E2M1KvBlockV1

end NNIS
