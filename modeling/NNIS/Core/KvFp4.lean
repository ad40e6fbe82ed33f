import NNIS.Numeric.Binary
import NNIS.Semantics.Checked
import NNIS.Semantics.Outcome

/-!
# FP4 E2M1 group-scaled layout

The layout and the storage accounting of `nnis-core/src/kv_fp4.rs`. Groups are formed within a row
and never cross rows; the last group of a row is padded with zero codes. A layout carries what its
constructor checks, in particular that its storage fits 64 bits.

## Main definitions

* `fp4E2m1Magnitudes`, `Fp4ScaleEncodingV1`, `Fp4E2M1KvLayoutV1`, `Fp4E2M1KvLayoutV1.new`.
* `Fp4Shape.storage`, `Fp4KvStorageV1`.

## Main results

* `Fp4E2M1KvLayoutV1.storage_eq`, `Fp4E2M1KvLayoutV1.sizes_lt` — the storage of a layout is exact
  and fits 64 bits.
* `Fp4E2M1KvLayoutV1.rowWidth_le`, `Fp4E2M1KvLayoutV1.div_lt_groupsPerRow`,
  `Fp4E2M1KvLayoutV1.group_start_lt` — rows and groups.
-/

set_option autoImplicit false

namespace NNIS

/-- Descriptor metadata bytes. -/
def fp4KvDescriptorBytes : ℕ := 24

/-- Largest finite E2M1 magnitude. -/
def fp4E2m1MaxMagnitude : F32 := .ofBits 0x40C00000

/-- Magnitudes of the eight non-negative E2M1 codes: 0, 1/2, 1, 3/2, 2, 3, 4 and 6. -/
def fp4E2m1Magnitudes : Fin 8 → F32
  | 0 => .ofBits 0x00000000
  | 1 => .ofBits 0x3F000000
  | 2 => .ofBits 0x3F800000
  | 3 => .ofBits 0x3FC00000
  | 4 => .ofBits 0x40000000
  | 5 => .ofBits 0x40400000
  | 6 => .ofBits 0x40800000
  | 7 => .ofBits 0x40C00000

/-- Largest accepted group size. -/
def maxFp4GroupSize : ℕ := 4096

/-- Fail-closed FP4 layout errors. -/
inductive Fp4LayoutError
  | zeroRows
  | zeroRowWidth
  | invalidGroupSize (groupSize : ℕ)
  | sizeOverflow
  deriving DecidableEq

/-- The text of an error. -/
def Fp4LayoutError.text : Fp4LayoutError → String
  | zeroRows => "FP4 KV layout must have at least one row"
  | zeroRowWidth => "FP4 KV row width must be non-zero"
  | invalidGroupSize groupSize =>
    s!"FP4 group size {groupSize} must be even and in 2..={maxFp4GroupSize}"
  | sizeOverflow => "FP4 KV storage arithmetic overflow"

/-- Explicit per-group scale encoding. -/
inductive Fp4ScaleEncodingV1
  | f32
  | e8m0
  deriving DecidableEq

/-- Stored bytes per group scale. -/
def Fp4ScaleEncodingV1.bytes : Fp4ScaleEncodingV1 → ℕ
  | f32 => 4
  | e8m0 => 1

/-- Exact resident storage breakdown of one FP4 E2M1 KV block. -/
structure Fp4KvStorageV1 where
  logicalValues : ℕ
  groups : ℕ
  codeBytes : ℕ
  scaleBytes : ℕ
  paddingValues : ℕ
  metadataBytes : ℕ
  totalBytes : ℕ
  deriving DecidableEq

/-- The dimensions of a layout. -/
structure Fp4Shape where
  rows : ℕ
  rowWidth : ℕ
  groupSize : ℕ
  scaleEncoding : Fp4ScaleEncodingV1
  deriving DecidableEq

namespace Fp4Shape

/-- Scale groups per row, including a final partially filled group, in 32 bits. -/
def groupsPerRow (self : Fp4Shape) : ℕ :=
  (self.rowWidth + (self.groupSize - 1)) / self.groupSize % 2 ^ 32

/-- Stored codes per row, including padding codes. -/
def paddedRowWidth (self : Fp4Shape) : ℕ := self.groupsPerRow * self.groupSize

/-- Packed code bytes per row. -/
def codeBytesPerRow (self : Fp4Shape) : ℕ := self.paddedRowWidth / 2

/-- Exact storage breakdown. -/
def storage (self : Fp4Shape) : Outcome Fp4LayoutError Fp4KvStorageV1 := do
  let logicalValues ← .okOr (checkedMul self.rows self.rowWidth) .sizeOverflow
  let paddingValues ←
    .okOr (checkedMul self.rows (self.paddedRowWidth - self.rowWidth)) .sizeOverflow
  let codeBytes ← .okOr (checkedMul self.rows self.codeBytesPerRow) .sizeOverflow
  let groups ← .okOr (checkedMul self.rows self.groupsPerRow) .sizeOverflow
  let scaleBytes ← .okOr (checkedMul groups self.scaleEncoding.bytes) .sizeOverflow
  let totalBytes ← .okOr ((checkedAdd codeBytes scaleBytes).bind fun bytes =>
    checkedAdd bytes fp4KvDescriptorBytes) .sizeOverflow
  pure
    { logicalValues
      groups
      codeBytes
      scaleBytes
      paddingValues
      metadataBytes := fp4KvDescriptorBytes
      totalBytes }

end Fp4Shape

/-- Validated FP4 E2M1 group-scaled KV layout. -/
structure Fp4E2M1KvLayoutV1 extends Fp4Shape where
  rows_pos : 0 < rows
  rowWidth_pos : 0 < rowWidth
  rowWidth_lt : rowWidth < 2 ^ 32
  groupSize_pos : 0 < groupSize
  groupSize_even : groupSize % 2 = 0
  groupSize_le : groupSize ≤ maxFp4GroupSize
  fits : ∃ storage, toFp4Shape.storage = .ok storage

namespace Fp4E2M1KvLayoutV1

/-- Validate a layout with an even group size so groups are byte aligned. -/
def new (rows : UInt64) (rowWidth groupSize : UInt32) (scaleEncoding : Fp4ScaleEncodingV1) :
    Outcome Fp4LayoutError Fp4E2M1KvLayoutV1 :=
  let shape : Fp4Shape := ⟨rows.toNat, rowWidth.toNat, groupSize.toNat, scaleEncoding⟩
  if h₀ : shape.rows = 0 then Outcome.raise .zeroRows
  else if h₁ : shape.rowWidth = 0 then Outcome.raise .zeroRowWidth
  else if h₂ : shape.groupSize = 0 ∨ shape.groupSize % 2 ≠ 0 ∨
      maxFp4GroupSize < shape.groupSize then
    Outcome.raise (.invalidGroupSize shape.groupSize)
  else
    match h₃ : shape.storage with
    | .error e => .error e
    | .ok storage =>
      .ok
        { toFp4Shape := shape
          rows_pos := Nat.pos_of_ne_zero h₀
          rowWidth_pos := Nat.pos_of_ne_zero h₁
          rowWidth_lt := rowWidth.toNat_lt
          groupSize_pos := Nat.pos_of_ne_zero fun h => h₂ (.inl h)
          groupSize_even := Decidable.of_not_not fun h => h₂ (.inr (.inl h))
          groupSize_le := Nat.le_of_not_lt fun h => h₂ (.inr (.inr h))
          fits := ⟨storage, h₃⟩ }

theorem toFp4Shape_of_new {rows : UInt64} {rowWidth groupSize : UInt32}
    {scaleEncoding : Fp4ScaleEncodingV1} {layout : Fp4E2M1KvLayoutV1}
    (h : new rows rowWidth groupSize scaleEncoding = .ok layout) :
    layout.toFp4Shape = ⟨rows.toNat, rowWidth.toNat, groupSize.toNat, scaleEncoding⟩ := by
  unfold new at h
  dsimp only at h
  split_ifs at h with h₀ h₁ h₂
  · exact (Outcome.raise_eq_ok_iff.1 h).elim
  · exact (Outcome.raise_eq_ok_iff.1 h).elim
  · exact (Outcome.raise_eq_ok_iff.1 h).elim
  · split at h
    · exact nomatch h
    · rw [← Except.ok.inj h]

variable (layout : Fp4E2M1KvLayoutV1)

/-! ### Rows and groups -/

theorem groupsPerRow_eq :
    layout.groupsPerRow = (layout.rowWidth + (layout.groupSize - 1)) / layout.groupSize := by
  have hg := layout.groupSize_pos
  have hle : (layout.rowWidth + (layout.groupSize - 1)) / layout.groupSize ≤ layout.rowWidth := by
    rw [Nat.div_le_iff_le_mul_add_pred hg]
    exact Nat.add_le_add_right (Nat.le_mul_of_pos_left _ hg) _
  exact Nat.mod_eq_of_lt (Nat.lt_of_le_of_lt hle layout.rowWidth_lt)

/-- A group of a row begins inside the row. -/
theorem group_start_lt {group : ℕ} (h : group < layout.groupsPerRow) :
    group * layout.groupSize < layout.rowWidth := by
  have hg := layout.groupSize_pos
  rw [groupsPerRow_eq, Nat.lt_div_iff_mul_lt hg] at h
  omega

/-- A position inside a row lies in one of its groups. -/
theorem div_lt_groupsPerRow {position : ℕ} (h : position < layout.rowWidth) :
    position / layout.groupSize < layout.groupsPerRow := by
  have hg := layout.groupSize_pos
  have hle : position / layout.groupSize * layout.groupSize ≤ position := Nat.div_mul_le_self _ _
  rw [groupsPerRow_eq, Nat.lt_div_iff_mul_lt hg]
  omega

/-- The padding of a row follows its values. -/
theorem rowWidth_le : layout.rowWidth ≤ layout.paddedRowWidth := by
  have hg := layout.groupSize_pos
  have hlt := layout.div_lt_groupsPerRow (Nat.sub_lt layout.rowWidth_pos Nat.one_pos)
  have hlast : layout.rowWidth - 1 < layout.paddedRowWidth := by
    rw [Nat.div_lt_iff_lt_mul hg] at hlt
    exact hlt
  omega

/-- Groups are byte aligned. -/
theorem codeBytesPerRow_mul_two : layout.codeBytesPerRow * 2 = layout.paddedRowWidth := by
  refine Nat.div_mul_cancel ?_
  exact Nat.dvd_mul_left_of_dvd (Nat.dvd_of_mod_eq_zero layout.groupSize_even) _

/-! ### Storage -/

/-- The exact storage of a layout. -/
def exactStorage : Fp4KvStorageV1 where
  logicalValues := layout.rows * layout.rowWidth
  groups := layout.rows * layout.groupsPerRow
  codeBytes := layout.rows * layout.codeBytesPerRow
  scaleBytes := layout.rows * layout.groupsPerRow * layout.scaleEncoding.bytes
  paddingValues := layout.rows * (layout.paddedRowWidth - layout.rowWidth)
  metadataBytes := fp4KvDescriptorBytes
  totalBytes := layout.rows * layout.codeBytesPerRow +
    layout.rows * layout.groupsPerRow * layout.scaleEncoding.bytes + fp4KvDescriptorBytes

/-- The storage of a layout is the exact one. -/
theorem storage_eq : layout.storage = .ok layout.exactStorage := by
  obtain ⟨storage, h⟩ := layout.fits
  rw [h]
  simp only [Fp4Shape.storage, Except.bind_eq_ok_iff, Outcome.okOr_eq_ok_iff,
    checkedMul_eq_some_iff, Option.bind_eq_some_iff, checkedAdd_eq_some_iff,
    Except.pure_eq_ok_iff] at h
  obtain ⟨_, ⟨rfl, -⟩, _, ⟨rfl, -⟩, _, ⟨rfl, -⟩, _, ⟨rfl, -⟩, _, ⟨rfl, -⟩, _,
    ⟨_, ⟨rfl, -⟩, rfl, -⟩, rfl⟩ := h
  rfl

/-- The sizes of a layout fit 64 bits. -/
theorem sizes_lt :
    layout.rows * layout.rowWidth < wordLimit ∧ layout.rows * layout.codeBytesPerRow < wordLimit ∧
      layout.rows * layout.groupsPerRow * layout.scaleEncoding.bytes < wordLimit := by
  obtain ⟨storage, h⟩ := layout.fits
  simp only [Fp4Shape.storage, Except.bind_eq_ok_iff, Outcome.okOr_eq_ok_iff,
    checkedMul_eq_some_iff] at h
  obtain ⟨_, ⟨rfl, hvalues⟩, _, -, _, ⟨rfl, hcodes⟩, _, ⟨rfl, -⟩, _, ⟨rfl, hscales⟩, -⟩ := h
  exact ⟨hvalues, hcodes, hscales⟩

theorem rows_lt : layout.rows < wordLimit :=
  Nat.lt_of_le_of_lt (Nat.le_mul_of_pos_right _ layout.rowWidth_pos) layout.sizes_lt.1

theorem codeBytesPerRow_lt : layout.codeBytesPerRow < wordLimit :=
  Nat.lt_of_le_of_lt (Nat.le_mul_of_pos_left _ layout.rows_pos) layout.sizes_lt.2.1

theorem paddedRowWidth_lt : layout.paddedRowWidth < wordLimit := by
  have hgroups : layout.groupsPerRow < 2 ^ 32 := Nat.mod_lt _ (Nat.two_pow_pos 32)
  have hsize : layout.groupSize ≤ 2 ^ 32 := Nat.le_trans layout.groupSize_le (by decide)
  calc layout.groupsPerRow * layout.groupSize
      ≤ layout.groupsPerRow * 2 ^ 32 := Nat.mul_le_mul_left _ hsize
    _ < 2 ^ 32 * 2 ^ 32 := Nat.mul_lt_mul_of_pos_right hgroups (Nat.two_pow_pos 32)
    _ = wordLimit := rfl

end Fp4E2M1KvLayoutV1

end NNIS
