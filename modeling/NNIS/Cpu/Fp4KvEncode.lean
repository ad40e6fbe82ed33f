import NNIS.Cpu.Fp4Scale

/-!
# Encoding FP4 blocks

Each value of a matrix has one code, under the scale of its group. The invariant of the encoder's
loops is that the completed positions hold their codes, decode to finite values under the scale
stored for their group, and that the other positions are still empty. It is kept by a value, by a
group and by a row; the loops stop only at a group one of whose values does not decode to a finite
value.

## Main definitions

* `Fp4Shape.rowOf`, `Fp4Shape.groupOf`, `Fp4Shape.scaleAt`, `Fp4Shape.codeAt` — rows, groups, the
  scale and the code of a position.
* `CpuFp4E2M1KvBlockV1.Encodes` — the block of a matrix.
* `CpuFp4E2M1KvBlockV1.EncodeFailure` — why an encoding fails.

## Main results

* `quantize_lt` — a quantized value has four bits.
* `CpuFp4E2M1KvBlockV1.encode_spec` — what encoding returns, and when it fails.
* `CpuFp4E2M1KvBlockV1.wellFormed_encode` — encoding gives well-formed blocks.
-/

set_option autoImplicit false

namespace NNIS

/-! ### The encoder -/

private theorem exists_magnitudeCode_eq (x : F64) :
    ∃ n : Fin 8, magnitudeCode x = UInt8.ofNat n := by
  unfold magnitudeCode
  dsimp only
  split
  · exact ⟨7, rfl⟩
  case h_2 index _ =>
    have hsucc : UInt8.ofNat index + 1 = UInt8.ofNat index.succ :=
      (UInt8.ofNat_add index.val 1).symm
    split_ifs
    · exact ⟨index.castSucc, rfl⟩
    · exact ⟨index.succ, hsucc⟩
    · exact ⟨index.castSucc, rfl⟩
    · exact ⟨index.succ, hsucc⟩

/-- A quantized value has four bits. -/
theorem quantize_lt (value : F32) (scale : F64) : quantize value scale < 16 := by
  have hbits : ∀ n : Fin 8, 0x8 ||| UInt8.ofNat n < 16 ∧ 0x0 ||| UInt8.ofNat n < 16 := by decide
  obtain ⟨n, hn⟩ := exists_magnitudeCode_eq ((value.abs.convert binary64).div scale)
  unfold quantize
  simp only [hn]
  by_cases hzero : scale.isZero = true <;> by_cases hsign : value.negative = true <;>
    simp only [hzero, hsign, Bool.false_eq_true, ↓reduceIte]
  · decide
  · decide
  · exact (hbits n).1
  · exact (hbits n).2

/-! ### The codes of a matrix -/

namespace Fp4Shape

variable (shape : Fp4Shape)

/-- The values of a row of a matrix. -/
def rowOf (values : List F32) (row : ℕ) : List F32 :=
  region values (row * shape.rowWidth) shape.rowWidth

/-- The values of a group of a row. -/
def groupOf (rowValues : List F32) (group : ℕ) : List F32 :=
  region rowValues (group * shape.groupSize)
    (min shape.rowWidth (group * shape.groupSize + shape.groupSize) - group * shape.groupSize)

/-- The scale of the group of a position of a row. -/
def scaleAt (rowValues : List F32) (position : ℕ) : F64 :=
  shape.scaleEncoding.groupScale (shape.groupOf rowValues (position / shape.groupSize))

/-- The code of the value at a position of a row. -/
def codeAt (rowValues : List F32) (position : ℕ) : UInt8 :=
  quantize (rowValues.getD position default) (shape.scaleAt rowValues position)

/-- The value to which the code at a position of a row is decoded. -/
def projectionAt (rowValues : List F32) (position : ℕ) : F32 :=
  decodeCode (shape.codeAt rowValues position) (shape.scaleAt rowValues position)

end Fp4Shape

namespace CpuFp4E2M1KvBlockV1

variable {log2Ceil : F64 → ℤ} {layout : Fp4E2M1KvLayoutV1}

/-- The block of a matrix: each place holds the code of its value, under the scale of its group. -/
structure Encodes (block : CpuFp4E2M1KvBlockV1) (values : List F32) : Prop where
  length_eq : values.length = block.layout.rows * block.layout.rowWidth
  finite : ∀ value ∈ values, value.isFinite = true
  wellFormed : block.WellFormed
  code_eq : ∀ row < block.layout.rows, ∀ position < block.layout.rowWidth,
    block.code row position = block.layout.codeAt (block.layout.rowOf values row) position
  hasScale : ∀ row < block.layout.rows, ∀ position < block.layout.rowWidth,
    block.HasScale (row * block.layout.groupsPerRow + position / block.layout.groupSize)
      (block.layout.scaleAt (block.layout.rowOf values row) position)
  projection_finite : ∀ row < block.layout.rows, ∀ position < block.layout.rowWidth,
    (block.layout.projectionAt (block.layout.rowOf values row) position).isFinite = true

/-- Why an encoding fails. -/
inductive EncodeFailure (host : Allocator) (layout : Fp4E2M1KvLayoutV1) (values : List F32) :
    CpuFp4Error → Prop
  | count (h : values.length ≠ layout.rows * layout.rowWidth) :
    EncodeFailure host layout values
      (.valueCountMismatch (layout.rows * layout.rowWidth) values.length)
  | nonFinite (index : ℕ) (hlength : values.length = layout.rows * layout.rowWidth)
      (h : values.findIdx? (fun value => !value.isFinite) = some index) :
    EncodeFailure host layout values (.nonFiniteValue index)
  | allocation (round : ℕ) (size : ℕ) (error : String)
      (hlength : values.length = layout.rows * layout.rowWidth)
      (hfinite : ∀ value ∈ values, value.isFinite = true)
      (h : host.answer round size = .error error) :
    EncodeFailure host layout values .allocationFailed
  | overflow (row position : ℕ) (hlength : values.length = layout.rows * layout.rowWidth)
      (hfinite : ∀ value ∈ values, value.isFinite = true) (hrow : row < layout.rows)
      (hposition : position < layout.rowWidth)
      (h : (layout.projectionAt (layout.rowOf values row) position).isFinite = false) :
    EncodeFailure host layout values
      (.decodeOverflow (row * layout.groupsPerRow + position / layout.groupSize))

/-- The codes of a row, its first `count` positions completed under the scales stored for their
groups and the others empty. -/
private structure RowInvariant (layout : Fp4E2M1KvLayoutV1) (row : ℕ) (rowValues : List F32)
    (count : ℕ) (rowCodes scales : List UInt8) : Prop where
  length_codes : rowCodes.length = layout.codeBytesPerRow
  done : ∀ position < count,
    layout.scaleEncoding.HasScale scales (row * layout.groupsPerRow + position / layout.groupSize)
      (layout.scaleAt rowValues position) ∧
    nibbleAt rowCodes position = layout.codeAt rowValues position ∧
    (layout.projectionAt rowValues position).isFinite = true
  empty : ∀ position < layout.paddedRowWidth, count ≤ position → nibbleAt rowCodes position = 0

/-- The loops stop at a group one of whose values does not decode to a finite value. -/
private def Overflows (layout : Fp4E2M1KvLayoutV1) (row : ℕ) (rowValues : List F32)
    (e : Stop CpuFp4Error) : Prop :=
  ∃ position < layout.rowWidth, (layout.projectionAt rowValues position).isFinite = false ∧
    e = .error (.decodeOverflow (row * layout.groupsPerRow + position / layout.groupSize))

private theorem encodeValue_meets {row group i : ℕ} {rowValues : List F32}
    {rowCodes scales : List UInt8}
    (hinv : RowInvariant layout row rowValues (group * layout.groupSize + i) rowCodes scales)
    (hscale : layout.scaleEncoding.HasScale scales (row * layout.groupsPerRow + group)
      (layout.scaleAt rowValues (group * layout.groupSize + i)))
    (hgroup : (group * layout.groupSize + i) / layout.groupSize = group)
    (hposition : group * layout.groupSize + i < layout.rowWidth) :
    Except.Meets (encodeValue (layout.scaleAt rowValues (group * layout.groupSize + i))
        (row * layout.groupsPerRow + group) (group * layout.groupSize) rowCodes
        (rowValues.getD (group * layout.groupSize + i) default, i))
      (fun rowCodes' =>
        RowInvariant layout row rowValues (group * layout.groupSize + (i + 1)) rowCodes' scales)
      (Overflows layout row rowValues) := by
  set position := group * layout.groupSize + i with hpos
  have hpadded := layout.codeBytesPerRow_mul_two
  have hwidth := layout.rowWidth_le
  have hlt : position / 2 < rowCodes.length := by
    rw [hinv.length_codes]
    omega
  have hcode : quantize (rowValues.getD position default) (layout.scaleAt rowValues position) =
      layout.codeAt rowValues position := rfl
  have hdecode : decodeCode (layout.codeAt rowValues position) (layout.scaleAt rowValues position) =
      layout.projectionAt rowValues position := rfl
  rw [encodeValue]
  dsimp only
  rw [hcode, hdecode, ← hpos]
  by_cases hfinite : (layout.projectionAt rowValues position).isFinite = true
  · have hmodify : (fun byte => byte ||| (layout.codeAt rowValues position <<<
        (if position % 2 = 0 then 0 else 4))) =
          orNibble position (layout.codeAt rowValues position) := by
      funext byte
      rcases Nat.mod_two_eq_zero_or_one position with heven | hodd
      · simp only [orNibble, orHalf, heven, ↓reduceIte, bne_self_eq_false, Bool.false_eq_true]
      · simp only [orNibble, orHalf, hodd, one_ne_zero, ↓reduceIte, Nat.reduceBneDiff]
    have hempty : nibbleAt rowCodes position = 0 := hinv.empty position (by omega) le_rfl
    have hnibble : ∀ p, nibbleAt (rowCodes.modify (position / 2)
        (orNibble position (layout.codeAt rowValues position))) p =
          if p = position then layout.codeAt rowValues position else nibbleAt rowCodes p :=
      fun _ => nibbleAt_orNibble hlt (quantize_lt _ _) hempty
    rw [Outcome.require_of _ hfinite, Except.ok_bind, hmodify, Outcome.modifyAt, if_pos hlt]
    refine ⟨?_, fun p hp => ?_, fun p hp hcount => ?_⟩
    · rw [List.length_modify, hinv.length_codes]
    · rw [hnibble]
      by_cases hself : p = position
      · rw [if_pos hself, hself, hgroup]
        exact ⟨hscale, rfl, hfinite⟩
      · rw [if_neg hself]
        exact hinv.done p (by omega)
    · rw [hnibble, if_neg (by omega)]
      exact hinv.empty p hp (by omega)
  · rw [Outcome.require_of_not _ hfinite]
    refine ⟨position, hposition, Bool.eq_false_iff.2 hfinite, ?_⟩
    rw [hgroup]

private theorem encodeGroup_meets {row group : ℕ} {rowValues : List F32}
    {state : List UInt8 × List UInt8} (hrow : row < layout.rows)
    (hgroup : group < layout.groupsPerRow) (hlength : rowValues.length = layout.rowWidth)
    (hfinite : ∀ value ∈ rowValues, value.isFinite = true)
    (hscales : state.2.length = layout.rows * layout.groupsPerRow * layout.scaleEncoding.bytes)
    (hinv : RowInvariant layout row rowValues (min layout.rowWidth (group * layout.groupSize))
      state.1 state.2) :
    Except.Meets (encodeGroup log2Ceil layout row rowValues state group)
      (fun state' =>
        RowInvariant layout row rowValues (min layout.rowWidth ((group + 1) * layout.groupSize))
          state'.1 state'.2 ∧
        state'.2.length = state.2.length ∧
        ∀ index < row * layout.groupsPerRow + group, ∀ scale,
          layout.scaleEncoding.HasScale state.2 index scale →
            layout.scaleEncoding.HasScale state'.2 index scale)
      (Overflows layout row rowValues) := by
  have hpos := layout.groupSize_pos
  have hstartLt := layout.group_start_lt hgroup
  have hstart : min layout.rowWidth (group * layout.groupSize) = group * layout.groupSize :=
    Nat.min_eq_right hstartLt.le
  rw [hstart] at hinv
  set size := min layout.rowWidth (group * layout.groupSize + layout.groupSize) -
    group * layout.groupSize with hsize
  have hgroupOf : region rowValues (group * layout.groupSize) size =
      layout.groupOf rowValues group := rfl
  have hgroupFinite : ∀ value ∈ layout.groupOf rowValues group, value.isFinite = true :=
    fun value hvalue => hfinite value (List.mem_of_mem_drop (List.mem_of_mem_take hvalue))
  set bytes := layout.scaleEncoding.groupScaleBytes (layout.groupOf rowValues group) with hbytes
  have hfour : layout.scaleEncoding.bytes ≤ bytes.length := by
    rw [hbytes]
    cases layout.scaleEncoding with
    | f32 => exact Nat.le_refl 4
    | e8m0 => exact Nat.succ_le_succ (Nat.zero_le 3)
  have hbytesLength : (region bytes 0 layout.scaleEncoding.bytes).length =
      layout.scaleEncoding.bytes := length_region (by rwa [Nat.zero_add])
  have hfit : (row * layout.groupsPerRow + group) * layout.scaleEncoding.bytes +
      (region bytes 0 layout.scaleEncoding.bytes).length ≤ state.2.length := by
    rw [hbytesLength, hscales, ← Nat.succ_mul]
    refine Nat.mul_le_mul_right _ ?_
    calc row * layout.groupsPerRow + group + 1 ≤ row * layout.groupsPerRow + layout.groupsPerRow :=
          by omega
      _ = (row + 1) * layout.groupsPerRow := (Nat.succ_mul ..).symm
      _ ≤ layout.rows * layout.groupsPerRow := Nat.mul_le_mul_right _ hrow
  set scales := writeRegion state.2
    ((row * layout.groupsPerRow + group) * layout.scaleEncoding.bytes)
    (region bytes 0 layout.scaleEncoding.bytes) with hscalesDef
  have hframe : ∀ index < row * layout.groupsPerRow + group, ∀ s,
      layout.scaleEncoding.HasScale state.2 index s →
        layout.scaleEncoding.HasScale scales index s :=
    fun index hindex s hs => hs.write_of_ne (Nat.ne_of_lt hindex) hbytesLength
  have hchoose := chooseScale_eq log2Ceil layout.scaleEncoding hgroupFinite
    (row * layout.groupsPerRow + group)
  have hscale : layout.scaleEncoding.HasScale scales (row * layout.groupsPerRow + group)
      (layout.scaleEncoding.groupScale (layout.groupOf rowValues group)) := by
    refine chooseScale_spec hgroupFinite hchoose ?_
    rw [hscalesDef, region_writeRegion_of_within hfit le_rfl (by rw [hbytesLength]), Nat.sub_self,
      region_region]
    exact Nat.le_of_eq (Nat.zero_add _)
  rw [encodeGroup, Outcome.slice, ← hsize, if_pos ⟨by omega, by omega⟩, Except.ok_bind, hgroupOf]
  dsimp only
  rw [hchoose, Except.ok_bind]
  dsimp only
  rw [Outcome.slice, if_pos ⟨Nat.zero_le _, hfour⟩, Except.ok_bind, Nat.sub_zero, Outcome.copyAt,
    if_pos hfit, Except.ok_bind]
  refine Except.Meets.bind (Q := fun rowCodes => RowInvariant layout row rowValues
    (group * layout.groupSize + (layout.groupOf rowValues group).zipIdx.length) rowCodes scales)
    (Except.Meets.foldlM_index (fun i rowCodes => RowInvariant layout row rowValues
      (group * layout.groupSize + i) rowCodes scales) _ _ ?_ ?_) fun rowCodes hdone => ?_
  · refine ⟨hinv.length_codes, fun position hposition => ?_, hinv.empty⟩
    obtain ⟨hs, hrest⟩ := hinv.done position hposition
    refine ⟨hframe _ ?_ _ hs, hrest⟩
    exact Nat.add_lt_add_left ((Nat.div_lt_iff_lt_mul hpos).2 hposition) _
  · intro i hi rowCodes hrowCodes
    have hlen : (layout.groupOf rowValues group).length = size := length_region (by omega)
    rw [List.length_zipIdx, hlen] at hi
    have hdiv : (group * layout.groupSize + i) / layout.groupSize = group := by
      rw [Nat.mul_comm, Nat.mul_add_div hpos, Nat.div_eq_of_lt (by omega), Nat.add_zero]
    have hscaleAt : layout.scaleEncoding.groupScale (layout.groupOf rowValues group) =
        layout.scaleAt rowValues (group * layout.groupSize + i) := by
      rw [Fp4Shape.scaleAt, hdiv]
    have hi' : i < (layout.groupOf rowValues group).length := hlen.symm ▸ hi
    have hvalue : (layout.groupOf rowValues group)[i] =
        rowValues.getD (group * layout.groupSize + i) default := by
      have hget : (region rowValues (group * layout.groupSize) size)[i]? =
          rowValues[group * layout.groupSize + i]? := getElem?_region rowValues hi
      rw [List.getD_eq_getElem?_getD, ← hget, hgroupOf, List.getElem?_eq_getElem hi',
        Option.getD_some]
    rw [List.getElem_zipIdx, Nat.zero_add, hvalue, hscaleAt]
    rw [hscaleAt] at hscale
    exact encodeValue_meets hrowCodes hscale hdiv (by omega)
  · rw [List.length_zipIdx, show (layout.groupOf rowValues group).length = size from
      length_region (by omega)] at hdone
    have hcount : group * layout.groupSize + size =
        min layout.rowWidth ((group + 1) * layout.groupSize) := by
      rw [Nat.succ_mul]
      omega
    rw [hcount] at hdone
    exact ⟨hdone, length_writeRegion .., hframe⟩

/-- A block its first `count` rows of which are completed and whose other codes are empty. -/
private structure BlockInvariant (layout : Fp4E2M1KvLayoutV1) (values : List F32) (count : ℕ)
    (codes scales : List UInt8) : Prop where
  length_codes : codes.length = layout.rows * layout.codeBytesPerRow
  length_scales : scales.length =
    layout.rows * layout.groupsPerRow * layout.scaleEncoding.bytes
  done : ∀ row < count, ∀ position < layout.rowWidth,
    layout.scaleEncoding.HasScale scales (row * layout.groupsPerRow + position / layout.groupSize)
      (layout.scaleAt (layout.rowOf values row) position) ∧
    nibbleAt codes (row * layout.paddedRowWidth + position) =
      layout.codeAt (layout.rowOf values row) position ∧
    (layout.projectionAt (layout.rowOf values row) position).isFinite = true
  padding : ∀ row < count, ∀ position < layout.paddedRowWidth, layout.rowWidth ≤ position →
    nibbleAt codes (row * layout.paddedRowWidth + position) = 0
  empty : ∀ position, count * layout.paddedRowWidth ≤ position → nibbleAt codes position = 0

theorem two_mul_codeBytes (layout : Fp4E2M1KvLayoutV1) (row : ℕ) :
    2 * (row * layout.codeBytesPerRow) = row * layout.paddedRowWidth := by
  rw [← layout.codeBytesPerRow_mul_two, Nat.mul_comm 2, Nat.mul_assoc]

/-- Putting a completed row in its place completes one more row of the block. -/
private theorem BlockInvariant.write_row {values : List F32} {row : ℕ}
    {codes scales rowCodes scales' : List UInt8}
    (hinv : BlockInvariant layout values row codes scales)
    (hrow : RowInvariant layout row (layout.rowOf values row) layout.rowWidth rowCodes scales')
    (hfit : row * layout.codeBytesPerRow + rowCodes.length ≤ codes.length)
    (hlength : scales'.length = scales.length)
    (hframe : ∀ index < row * layout.groupsPerRow, ∀ scale,
      layout.scaleEncoding.HasScale scales index scale →
        layout.scaleEncoding.HasScale scales' index scale) :
    BlockInvariant layout values (row + 1)
      (writeRegion codes (row * layout.codeBytesPerRow) rowCodes) scales' := by
  have hpadded := layout.codeBytesPerRow_mul_two
  have hfirst := two_mul_codeBytes layout row
  have hrowLength := hrow.length_codes
  have hwithin : ∀ position < layout.paddedRowWidth,
      nibbleAt (writeRegion codes (row * layout.codeBytesPerRow) rowCodes)
        (row * layout.paddedRowWidth + position) = nibbleAt rowCodes position := by
    intro position hposition
    rw [nibbleAt_writeRegion_of_within hfit (by omega) (by omega), hfirst, Nat.add_sub_cancel_left]
  have hbefore : ∀ index < row, ∀ position < layout.paddedRowWidth,
      nibbleAt (writeRegion codes (row * layout.codeBytesPerRow) rowCodes)
          (index * layout.paddedRowWidth + position) =
        nibbleAt codes (index * layout.paddedRowWidth + position) := by
    intro index hindex position hposition
    have hmul : (index + 1) * layout.paddedRowWidth ≤ row * layout.paddedRowWidth :=
      Nat.mul_le_mul_right _ hindex
    rw [Nat.succ_mul] at hmul
    exact nibbleAt_writeRegion_of_outside (.inl (by omega))
  refine ⟨?_, ?_, ?_, ?_, ?_⟩
  · rw [length_writeRegion, hinv.length_codes]
  · rw [hlength, hinv.length_scales]
  · intro index hindex position hposition
    have hlt := Nat.lt_of_lt_of_le hposition layout.rowWidth_le
    rcases Nat.lt_succ_iff_lt_or_eq.1 hindex with hprev | rfl
    · obtain ⟨hscale, hcode, hdecode⟩ := hinv.done index hprev position hposition
      refine ⟨hframe _ ?_ _ hscale, by rwa [hbefore index hprev position hlt], hdecode⟩
      have hgroup := layout.div_lt_groupsPerRow hposition
      have hmul : (index + 1) * layout.groupsPerRow ≤ row * layout.groupsPerRow :=
        Nat.mul_le_mul_right _ hprev
      rw [Nat.succ_mul] at hmul
      omega
    · rw [hwithin position hlt]
      exact hrow.done position hposition
  · intro index hindex position hposition hpad
    rcases Nat.lt_succ_iff_lt_or_eq.1 hindex with hprev | rfl
    · rw [hbefore index hprev position hposition]
      exact hinv.padding index hprev position hposition hpad
    · rw [hwithin position hposition]
      exact hrow.empty position hposition hpad
  · intro position hposition
    rw [Nat.succ_mul] at hposition
    rw [nibbleAt_writeRegion_of_outside (.inr (by omega))]
    exact hinv.empty position (by omega)

/-- The loops over the rows stop at a place whose value does not decode to a finite value. -/
private def BlockOverflows (layout : Fp4E2M1KvLayoutV1) (values : List F32)
    (e : Stop CpuFp4Error) : Prop :=
  ∃ row < layout.rows, Overflows layout row (layout.rowOf values row) e

private theorem encodeRow_meets {values : List F32} {row : ℕ} {state : List UInt8 × List UInt8}
    (hlength : values.length = layout.rows * layout.rowWidth)
    (hfinite : ∀ value ∈ values, value.isFinite = true) (hrow : row < layout.rows)
    (hinv : BlockInvariant layout values row state.1 state.2) :
    Except.Meets (encodeRow log2Ceil layout layout.codeBytesPerRow values state row)
      (fun state' => BlockInvariant layout values (row + 1) state'.1 state'.2)
      (BlockOverflows layout values) := by
  have hmul : (row + 1) * layout.codeBytesPerRow ≤ layout.rows * layout.codeBytesPerRow :=
    Nat.mul_le_mul_right _ hrow
  have hsub : (row + 1) * layout.codeBytesPerRow - row * layout.codeBytesPerRow =
      layout.codeBytesPerRow := by
    rw [Nat.succ_mul, Nat.add_sub_cancel_left]
  have hrowLength : (layout.rowOf values row).length = layout.rowWidth := by
    have hwidth : (row + 1) * layout.rowWidth ≤ layout.rows * layout.rowWidth :=
      Nat.mul_le_mul_right _ hrow
    rw [Nat.succ_mul] at hwidth
    exact length_region (by omega)
  have hrowFinite : ∀ value ∈ layout.rowOf values row, value.isFinite = true :=
    fun value hvalue => hfinite value (List.mem_of_mem_drop (List.mem_of_mem_take hvalue))
  have hrowOf : region values (row * layout.rowWidth) layout.rowWidth =
      layout.rowOf values row := rfl
  -- The codes of a row that no round has reached are empty.
  have hstart : RowInvariant layout row (layout.rowOf values row)
      (min layout.rowWidth (0 * layout.groupSize))
      (region state.1 (row * layout.codeBytesPerRow) layout.codeBytesPerRow) state.2 := by
    refine ⟨length_region (by rwa [← Nat.succ_mul, hinv.length_codes]),
      fun position hposition => ?_, fun position hposition _ => ?_⟩
    · rw [Nat.zero_mul, Nat.min_zero] at hposition
      exact absurd hposition (Nat.not_lt_zero _)
    · have hpadded := layout.codeBytesPerRow_mul_two
      rw [nibbleAt_region _ (by omega), two_mul_codeBytes]
      exact hinv.empty _ (Nat.le_add_right _ _)
  rw [encodeRow, hrowOf]
  dsimp only
  rw [Outcome.slice, if_pos ⟨Nat.mul_le_mul_right _ (Nat.le_succ row), by rwa [hinv.length_codes]⟩,
    Except.ok_bind, hsub]
  refine Except.Meets.bind ((Except.Meets.foldlM_range
    (fun group (s : List UInt8 × List UInt8) =>
      RowInvariant layout row (layout.rowOf values row)
          (min layout.rowWidth (group * layout.groupSize)) s.1 s.2 ∧
        s.2.length = state.2.length ∧
        ∀ index < row * layout.groupsPerRow, ∀ scale,
          layout.scaleEncoding.HasScale state.2 index scale →
            layout.scaleEncoding.HasScale s.2 index scale)
    (region state.1 (row * layout.codeBytesPerRow) layout.codeBytesPerRow, state.2)
    ⟨hstart, rfl, fun _ _ _ hscale => hscale⟩ ?_).mono (fun _ h => h)
      fun e he => ⟨row, hrow, he⟩) ?_
  · rintro group hgroup s ⟨hrowInv, hscales, hframe⟩
    refine (encodeGroup_meets hrow hgroup hrowLength hrowFinite
      (hscales.trans hinv.length_scales) hrowInv).mono (fun s' hs' => ?_) fun _ he => he
    exact ⟨hs'.1, hs'.2.1.trans hscales, fun index hindex scale hscale =>
      hs'.2.2 index (Nat.lt_add_right _ hindex) scale (hframe index hindex scale hscale)⟩
  · rintro ⟨rowCodes, scales⟩ ⟨hrowInv, hscales, hframe⟩
    have hwidth : min layout.rowWidth (layout.groupsPerRow * layout.groupSize) = layout.rowWidth :=
      Nat.min_eq_left layout.rowWidth_le
    have hfit : row * layout.codeBytesPerRow + rowCodes.length ≤ state.1.length := by
      rw [hrowInv.length_codes, hinv.length_codes, ← Nat.succ_mul]
      exact hmul
    rw [hwidth] at hrowInv
    dsimp only
    rw [Outcome.copyAt, if_pos hfit]
    exact hinv.write_row hrowInv hfit hscales hframe

theorem hostLen_of_lt {value : ℕ} (h : value < wordLimit) : hostLen value = .ok value := by
  rw [hostLen, if_pos h]
  rfl

/-- A block all of whose rows are completed is the block of the matrix. -/
private theorem BlockInvariant.encodes {values : List F32} {codes scales : List UInt8}
    (hlength : values.length = layout.rows * layout.rowWidth)
    (hfinite : ∀ value ∈ values, value.isFinite = true)
    (hinv : BlockInvariant layout values layout.rows codes scales) :
    Encodes ⟨layout, codes, scales⟩ values where
  length_eq := hlength
  finite := hfinite
  code_eq row hrow position hposition := (hinv.done row hrow position hposition).2.1
  hasScale row hrow position hposition := (hinv.done row hrow position hposition).1
  projection_finite row hrow position hposition := (hinv.done row hrow position hposition).2.2
  wellFormed :=
    { length_codes := fun storage hstorage => by
        obtain rfl := Except.ok.inj (layout.storage_eq.symm.trans hstorage)
        exact hinv.length_codes
      length_scales := fun storage hstorage => by
        obtain rfl := Except.ok.inj (layout.storage_eq.symm.trans hstorage)
        exact hinv.length_scales
      padding := fun row hrow position hposition hpad =>
        hinv.padding row hrow position hposition hpad
      scales_valid := fun row hrow group hgroup => by
        obtain ⟨hscale, -⟩ := hinv.done row hrow _ (layout.group_start_lt hgroup)
        rw [Nat.mul_div_cancel _ layout.groupSize_pos] at hscale
        exact ⟨_, hscale⟩
      finite := fun row hrow position hposition scale hscale => by
        obtain ⟨hscale', hcode, hdecode⟩ := hinv.done row hrow position hposition
        have heq := ((scale_eq_ok_iff ⟨layout, codes, scales⟩).2 hscale).symm.trans
          ((scale_eq_ok_iff ⟨layout, codes, scales⟩).2 hscale')
        obtain rfl := Except.ok.inj heq
        rw [code, hcode]
        exact hdecode }

private theorem zeroed_spec (host : Allocator) (len : ℕ) :
    Fallible.Spec (fun s => s = host) (zeroed len)
      (fun bytes s => bytes = List.replicate len 0 ∧ s = host.rest)
      fun e _ => e = .error .allocationFailed ∧ ∃ error, host.answer 0 len = .error error := by
  rintro s rfl
  change Fallible.Post _ _ ((tryReserveExact len >>= _).run s)
  rw [Fallible.run_bind_ok rfl]
  cases hanswer : s.answer 0 len with
  | ok capacity => exact ⟨rfl, rfl⟩
  | error error => exact ⟨rfl, error, rfl⟩

private theorem blockInvariant_zero (layout : Fp4E2M1KvLayoutV1) (values : List F32) :
    BlockInvariant layout values 0 (List.replicate (layout.rows * layout.codeBytesPerRow) 0)
      (List.replicate (layout.rows * layout.groupsPerRow * layout.scaleEncoding.bytes) 0) where
  length_codes := List.length_replicate
  length_scales := List.length_replicate
  done row hrow := absurd hrow (Nat.not_lt_zero row)
  padding row hrow := absurd hrow (Nat.not_lt_zero row)
  empty position _ := nibbleAt_replicate_zero _ position

/-- Encoding returns the block of the matrix, or fails for one of the listed reasons. -/
theorem encode_spec (log2Ceil : F64 → ℤ) (layout : Fp4E2M1KvLayoutV1) (values : List F32)
    (host : Allocator) :
    Fallible.Spec (fun s => s = host) (encode log2Ceil layout values)
      (fun block _ => block.layout = layout ∧ block.Encodes values)
      fun e _ => ∃ e', e = .error e' ∧ EncodeFailure host layout values e' := by
  obtain ⟨hvalues, hcodes, hscales⟩ := layout.sizes_lt
  have hstorage : Outcome.wrap CpuFp4Error.layout layout.storage = .ok layout.exactStorage := by
    rw [layout.storage_eq]
    rfl
  simp only [encode, hstorage, Fallible.ofExcept_ok_bind, Fp4E2M1KvLayoutV1.exactStorage,
    hostLen_of_lt hvalues, hostLen_of_lt hcodes, hostLen_of_lt hscales,
    hostLen_of_lt layout.codeBytesPerRow_lt]
  refine Fallible.Spec.bind (R := fun _ s => values.length = layout.rows * layout.rowWidth ∧
    s = host) (Fallible.Spec.ofExcept (fun _ h s hs => ⟨Outcome.require_eq_ok_iff.1 h, hs⟩)
      fun e h s _ => ?_) fun _ => ?_
  · obtain ⟨rfl, hne⟩ := Outcome.eq_of_require_eq_error h
    exact ⟨_, rfl, .count hne⟩
  refine Fallible.Spec.of_forall ?_
  rintro s ⟨hlength, rfl⟩
  cases hfind : values.findIdx? fun value => !value.isFinite with
  | some index =>
    refine Fallible.Spec.ofExcept (fun _ h => by cases h) fun e h s _ => ?_
    exact ⟨_, (Except.error.inj h).symm, .nonFinite index hlength hfind⟩
  | none =>
    have hfinite : ∀ value ∈ values, value.isFinite = true := by
      intro value hvalue
      simpa only [Bool.not_eq_false'] using List.findIdx?_eq_none_iff.1 hfind value hvalue
    refine ((zeroed_spec s _).conseq (fun _ h => h) (fun _ _ h => h) ?_).bind
      fun codes => Fallible.Spec.of_forall ?_
    · rintro e _ ⟨rfl, error, herror⟩
      exact ⟨_, rfl, .allocation 0 _ error hlength hfinite herror⟩
    rintro _ ⟨rfl, rfl⟩
    refine ((zeroed_spec s.rest _).conseq (fun _ h => h) (fun _ _ h => h) ?_).bind
      fun scales => Fallible.Spec.of_forall ?_
    · rintro e _ ⟨rfl, error, herror⟩
      exact ⟨_, rfl, .allocation 1 _ error hlength hfinite herror⟩
    rintro _ ⟨rfl, rfl⟩
    have hrows := Except.Meets.foldlM_range (n := layout.rows)
      (fun row (state : List UInt8 × List UInt8) =>
        BlockInvariant layout values row state.1 state.2) (_, _) (blockInvariant_zero layout values)
      fun row hrow state hinv =>
        show Except.Meets (encodeRow log2Ceil layout layout.codeBytesPerRow values state row) _ _
        from encodeRow_meets hlength hfinite hrow hinv
    rw [hlength, Nat.mul_div_cancel _ layout.rowWidth_pos]
    refine Fallible.Spec.bind (R := fun state _ =>
      BlockInvariant layout values layout.rows state.1 state.2)
      (Fallible.Spec.ofExcept (fun state h _ _ => hrows.of_ok h) fun e h _ _ => ?_)
      fun state => Fallible.Spec.pure _ fun _ hinv => ⟨rfl, hinv.encodes hlength hfinite⟩
    obtain ⟨row, hrow, position, hposition, hnot, rfl⟩ := hrows.of_error h
    exact ⟨_, rfl, .overflow row position hlength hfinite hrow hposition hnot⟩

/-- Encoding gives well-formed blocks of its layout. -/
theorem wellFormed_encode (log2Ceil : F64 → ℤ) (layout : Fp4E2M1KvLayoutV1) (values : List F32) :
    Fallible.Spec (fun _ => True) (encode log2Ceil layout values)
      (fun block _ => block.layout = layout ∧ block.WellFormed) fun _ _ => True :=
  Fallible.Spec.of_forall fun host _ => (encode_spec log2Ceil layout values host).conseq
    (fun _ h => h) (fun _ _ h => ⟨h.1, h.2.wellFormed⟩) fun _ _ _ => trivial

end CpuFp4E2M1KvBlockV1

end NNIS
