import NNIS.Cpu.Fp4KvEncode

/-!
# Round trip of FP4 blocks

Reassembly accepts exactly the well-formed blocks, and what the encoder returns is well formed. The
encoder and the reassembly check validity independently, so that both are compared with the
predicate and not with each other.

## Main results

* `CpuFp4E2M1KvBlockV1.fromParts_eq_ok_iff` — reassembly accepts the well-formed blocks.
* `CpuFp4E2M1KvBlockV1.fromParts_safe` — reassembly never indexes out of range.
* `CpuFp4E2M1KvBlockV1.decode_values` — a well-formed block decodes, place by place.
* `CpuFp4E2M1KvBlockV1.wire_round_trip`.
-/

set_option autoImplicit false

namespace NNIS

namespace CpuFp4E2M1KvBlockV1

/-! ### Reassembly -/

theorem nibble_of_lt {rowCodes : List UInt8} {position : ℕ}
    (h : position / 2 < rowCodes.length) :
    nibble rowCodes position = .ok (nibbleAt rowCodes position) := by
  rw [nibble, Outcome.index_of_lt h, Except.ok_bind, nibbleAt, half, List.getD_eq_getElem?_getD,
    List.getElem?_eq_getElem h]
  rcases Nat.mod_two_eq_zero_or_one position with heven | hodd
  · simp only [heven, ↓reduceIte, bne_self_eq_false, Bool.false_eq_true]
    rfl
  · simp only [hodd, one_ne_zero, ↓reduceIte, Nat.reduceBneDiff]
    rfl

/-- What the check of a stored code accepts. -/
theorem checkPosition_eq_ok_iff (block : CpuFp4E2M1KvBlockV1) {rowCodes : List UInt8}
    {row position : ℕ} (h : position / 2 < rowCodes.length) :
    block.checkPosition rowCodes row position = .ok ⟨⟩ ↔
      (block.layout.rowWidth ≤ position → nibbleAt rowCodes position = 0) ∧
      (position < block.layout.rowWidth → ∃ scale,
        block.HasScale (row * block.layout.groupsPerRow + position / block.layout.groupSize) scale ∧
          (decodeCode (nibbleAt rowCodes position) scale).isFinite = true) := by
  rw [checkPosition, nibble_of_lt h, Except.ok_bind]
  by_cases hpad : block.layout.rowWidth ≤ position
  · rw [if_pos hpad, Outcome.require_eq_ok_iff]
    exact ⟨fun hzero => ⟨fun _ => hzero, fun hlt => absurd hlt (Nat.not_lt.2 hpad)⟩,
      fun hboth => hboth.1 hpad⟩
  · rw [if_neg hpad]
    simp only [Except.bind_eq_ok_iff, Outcome.require_eq_ok_iff, scale_eq_ok_iff]
    exact ⟨fun hscale => ⟨fun hle => absurd hle hpad, fun _ => hscale⟩,
      fun hboth => hboth.2 (Nat.lt_of_not_le hpad)⟩

/-- The check of a stored code does not panic. -/
theorem checkPosition_safe (block : CpuFp4E2M1KvBlockV1) {rowCodes : List UInt8}
    {row position : ℕ} (h : position / 2 < rowCodes.length) :
    Outcome.Safe (block.checkPosition rowCodes row position) := by
  rw [checkPosition, nibble_of_lt h, Except.ok_bind]
  by_cases hpad : block.layout.rowWidth ≤ position
  · rw [if_pos hpad]
    exact Outcome.Safe.require _ _
  · rw [if_neg hpad]
    exact (block.scale_safe _).bind fun _ _ => Outcome.Safe.require _ _

/-- The codes of a row of a block of the right length. -/
private theorem slice_row {block : CpuFp4E2M1KvBlockV1}
    (hlength : block.codes.length = block.layout.rows * block.layout.codeBytesPerRow) {row : ℕ}
    (hrow : row < block.layout.rows) :
    ∃ rowCodes : List UInt8, (Outcome.slice block.codes (row * block.layout.codeBytesPerRow)
        ((row + 1) * block.layout.codeBytesPerRow) : Outcome CpuFp4Error (List UInt8)) =
          .ok rowCodes ∧
      rowCodes.length = block.layout.codeBytesPerRow ∧
      ∀ position < block.layout.paddedRowWidth,
        nibbleAt rowCodes position = block.code row position := by
  have hpadded := block.layout.codeBytesPerRow_mul_two
  have hle : (row + 1) * block.layout.codeBytesPerRow ≤ block.codes.length := by
    rw [hlength]
    exact Nat.mul_le_mul_right _ hrow
  have hsub : (row + 1) * block.layout.codeBytesPerRow - row * block.layout.codeBytesPerRow =
      block.layout.codeBytesPerRow := by
    rw [Nat.succ_mul, Nat.add_sub_cancel_left]
  refine ⟨region block.codes (row * block.layout.codeBytesPerRow) block.layout.codeBytesPerRow,
    ?_, ?_, fun position hposition => ?_⟩
  · rw [Outcome.slice_eq_ok_iff, hsub]
    exact ⟨Nat.mul_le_mul_right _ (Nat.le_succ row), hle, rfl⟩
  · refine length_region ?_
    rwa [← Nat.succ_mul]
  · rw [nibbleAt_region _ (by omega), two_mul_codeBytes, code]

/-- The check of a row. -/
private def checkRow (block : CpuFp4E2M1KvBlockV1) (row : ℕ) : Outcome CpuFp4Error PUnit := do
  let rowCodes ← Outcome.slice block.codes (row * block.layout.codeBytesPerRow)
    ((row + 1) * block.layout.codeBytesPerRow)
  (List.range block.layout.paddedRowWidth).forM (block.checkPosition rowCodes row)

private theorem fromParts_eq (layout : Fp4E2M1KvLayoutV1) (codes scales : List UInt8) :
    fromParts layout codes scales = (do
      Outcome.require (codes.length = layout.exactStorage.codeBytes)
        (.codeBytesMismatch layout.exactStorage.codeBytes codes.length)
      Outcome.require (scales.length = layout.exactStorage.scaleBytes)
        (.scaleBytesMismatch layout.exactStorage.scaleBytes scales.length)
      (List.range layout.rows).forM (checkRow ⟨layout, codes, scales⟩)
      pure ⟨layout, codes, scales⟩) := by
  obtain ⟨-, hcodes, hscales⟩ := layout.sizes_lt
  have hstorage : Outcome.wrap CpuFp4Error.layout layout.storage = .ok layout.exactStorage := by
    rw [layout.storage_eq]
    rfl
  have hcodes' : hostLen layout.exactStorage.codeBytes = .ok layout.exactStorage.codeBytes :=
    hostLen_of_lt hcodes
  have hscales' : hostLen layout.exactStorage.scaleBytes = .ok layout.exactStorage.scaleBytes :=
    hostLen_of_lt hscales
  simp only [fromParts, hstorage, Except.ok_bind, hcodes', hscales',
    hostLen_of_lt layout.paddedRowWidth_lt, hostLen_of_lt layout.codeBytesPerRow_lt,
    hostLen_of_lt layout.rows_lt]
  rfl

private theorem checkRow_eq_ok_iff {block : CpuFp4E2M1KvBlockV1}
    (hlength : block.codes.length = block.layout.rows * block.layout.codeBytesPerRow) {row : ℕ}
    (hrow : row < block.layout.rows) :
    checkRow block row = .ok ⟨⟩ ↔ ∀ position < block.layout.paddedRowWidth,
      (block.layout.rowWidth ≤ position → block.code row position = 0) ∧
      (position < block.layout.rowWidth → ∃ scale,
        block.HasScale (row * block.layout.groupsPerRow + position / block.layout.groupSize) scale ∧
          (decodeCode (block.code row position) scale).isFinite = true) := by
  obtain ⟨rowCodes, hslice, hrowLength, hcode⟩ := slice_row hlength hrow
  have hpadded := block.layout.codeBytesPerRow_mul_two
  rw [checkRow, hslice, Except.ok_bind, Outcome.forM_eq_ok_iff]
  simp only [List.mem_range]
  refine forall₂_congr fun position hposition => ?_
  rw [checkPosition_eq_ok_iff block (by omega), hcode position hposition]

private theorem checkRow_safe {block : CpuFp4E2M1KvBlockV1}
    (hlength : block.codes.length = block.layout.rows * block.layout.codeBytesPerRow) {row : ℕ}
    (hrow : row < block.layout.rows) : Outcome.Safe (checkRow block row) := by
  obtain ⟨rowCodes, hslice, hrowLength, -⟩ := slice_row hlength hrow
  have hpadded := block.layout.codeBytesPerRow_mul_two
  rw [checkRow, hslice, Except.ok_bind]
  intro hpanic
  obtain ⟨position, hposition, hcheck⟩ := Outcome.exists_of_forM_eq_error hpanic
  rw [List.mem_range] at hposition
  exact checkPosition_safe block (by omega) hcheck

/-- A block of the right lengths is well formed exactly when each of its rows passes its check. -/
private theorem wellFormed_iff (block : CpuFp4E2M1KvBlockV1) :
    block.WellFormed ↔ block.codes.length = block.layout.exactStorage.codeBytes ∧
      block.scales.length = block.layout.exactStorage.scaleBytes ∧
      ∀ row < block.layout.rows, checkRow block row = .ok ⟨⟩ := by
  constructor
  · intro h
    have hlength := h.length_codes _ block.layout.storage_eq
    refine ⟨hlength, h.length_scales _ block.layout.storage_eq, fun row hrow => ?_⟩
    rw [checkRow_eq_ok_iff hlength hrow]
    refine fun position hposition => ⟨h.padding row hrow position hposition, fun hwidth => ?_⟩
    obtain ⟨scale, hscale⟩ :=
      h.scales_valid row hrow _ (block.layout.div_lt_groupsPerRow hwidth)
    exact ⟨scale, hscale, h.finite row hrow position hwidth scale hscale⟩
  · rintro ⟨hcodes, hscales, hrows⟩
    have hcheck := fun row hrow => (checkRow_eq_ok_iff hcodes hrow).1 (hrows row hrow)
    constructor
    case length_codes =>
      intro storage hstorage
      rw [hcodes, Except.ok.inj (block.layout.storage_eq.symm.trans hstorage)]
    case length_scales =>
      intro storage hstorage
      rw [hscales, Except.ok.inj (block.layout.storage_eq.symm.trans hstorage)]
    case padding =>
      exact fun row hrow position hposition hpad => (hcheck row hrow position hposition).1 hpad
    case scales_valid =>
      intro row hrow group hgroup
      have hstart := block.layout.group_start_lt hgroup
      obtain ⟨scale, hscale, -⟩ := (hcheck row hrow _
        (Nat.lt_of_lt_of_le hstart block.layout.rowWidth_le)).2 hstart
      rw [Nat.mul_div_cancel _ block.layout.groupSize_pos] at hscale
      exact ⟨scale, hscale⟩
    case finite =>
      intro row hrow position hposition scale hscale
      obtain ⟨scale', hscale', hdecode⟩ := (hcheck row hrow position
        (Nat.lt_of_lt_of_le hposition block.layout.rowWidth_le)).2 hposition
      obtain rfl := Except.ok.inj
        ((block.scale_eq_ok_iff.2 hscale).symm.trans (block.scale_eq_ok_iff.2 hscale'))
      exact hdecode

/-- Reassembly accepts exactly the well-formed blocks. -/
theorem fromParts_eq_ok_iff {layout : Fp4E2M1KvLayoutV1} {codes scales : List UInt8}
    {block : CpuFp4E2M1KvBlockV1} :
    fromParts layout codes scales = .ok block ↔
      block = ⟨layout, codes, scales⟩ ∧ block.WellFormed := by
  simp only [fromParts_eq, Except.bind_eq_ok_iff, Outcome.require_eq_ok_iff,
    Except.pure_eq_ok_iff]
  constructor
  · rintro ⟨_, hcodes, _, hscales, _, hloop, rfl⟩
    have hrows := Outcome.forM_eq_ok_iff.1 hloop
    exact ⟨rfl, (wellFormed_iff _).2 ⟨hcodes, hscales, fun row hrow =>
      hrows row (List.mem_range.2 hrow)⟩⟩
  · rintro ⟨rfl, hwell⟩
    obtain ⟨hcodes, hscales, hrows⟩ := (wellFormed_iff _).1 hwell
    refine ⟨⟨⟩, hcodes, ⟨⟩, hscales, ⟨⟩, Outcome.forM_eq_ok_iff.2 fun row hrow => ?_, rfl⟩
    exact hrows row (List.mem_range.1 hrow)

/-- Reassembly never indexes out of range. -/
theorem fromParts_safe (layout : Fp4E2M1KvLayoutV1) (codes scales : List UInt8) :
    Outcome.Safe (fromParts layout codes scales) := by
  rw [fromParts_eq]
  refine (Outcome.Safe.require _ _).bind fun _ hcodes => ?_
  rw [Outcome.require_eq_ok_iff] at hcodes
  refine (Outcome.Safe.require _ _).bind fun _ _ => ?_
  refine Outcome.Safe.bind (fun hpanic => ?_) fun _ _ => Outcome.Safe.pure _
  obtain ⟨row, hrow, hcheck⟩ := Outcome.exists_of_forM_eq_error hpanic
  exact checkRow_safe hcodes (List.mem_range.1 hrow) hcheck

/-! ### Decoding -/

/-- The value at each place of an output is that of the code and the scale of its place. -/
def Decoded (block : CpuFp4E2M1KvBlockV1) (output : List F32) : Prop :=
  ∀ i < output.length, ∃ scale,
    block.HasScale (i / block.layout.rowWidth * block.layout.groupsPerRow +
      i % block.layout.rowWidth / block.layout.groupSize) scale ∧
    output[i]? =
      some (decodeCode (block.code (i / block.layout.rowWidth) (i % block.layout.rowWidth)) scale)

private theorem Decoded.append {block : CpuFp4E2M1KvBlockV1} {output : List F32} {row position : ℕ}
    {scale : F64} (h : block.Decoded output)
    (hlength : output.length = row * block.layout.rowWidth + position)
    (hposition : position < block.layout.rowWidth)
    (hscale : block.HasScale
      (row * block.layout.groupsPerRow + position / block.layout.groupSize) scale) :
    block.Decoded (output ++ [decodeCode (block.code row position) scale]) := by
  intro i hi
  rw [List.length_append, List.length_singleton] at hi
  rcases Nat.lt_succ_iff_lt_or_eq.1 hi with hlt | rfl
  · obtain ⟨scale', hscale', hget⟩ := h i hlt
    exact ⟨scale', hscale', by rwa [List.getElem?_append_left hlt]⟩
  · have hdiv : output.length / block.layout.rowWidth = row := by
      rw [hlength, Nat.mul_comm, Nat.mul_add_div (by omega), Nat.div_eq_of_lt hposition,
        Nat.add_zero]
    have hmod : output.length % block.layout.rowWidth = position := by
      rw [hlength, Nat.mul_comm, Nat.mul_add_mod, Nat.mod_eq_of_lt hposition]
    rw [hdiv, hmod]
    exact ⟨scale, hscale, by simp⟩

/-- Decoding a row of a well-formed block appends the values of the row. -/
private theorem exists_decodeRow_eq {block : CpuFp4E2M1KvBlockV1} (h : block.WellFormed) {row : ℕ}
    (hrow : row < block.layout.rows) {output : List F32} (houtput : block.Decoded output)
    (hlength : output.length = row * block.layout.rowWidth) :
    ∃ output', block.decodeRow block.layout.codeBytesPerRow output row = .ok output' ∧
      output'.length = (row + 1) * block.layout.rowWidth ∧ block.Decoded output' := by
  have hcodes := h.length_codes _ block.layout.storage_eq
  obtain ⟨rowCodes, hslice, hrowLength, hcode⟩ := slice_row hcodes hrow
  have hpadded := block.layout.codeBytesPerRow_mul_two
  have hwidth := block.layout.rowWidth_le
  rw [decodeRow, hslice, Except.ok_bind, Nat.succ_mul]
  refine Outcome.foldlM_range_total (fun position (acc : List F32) =>
    acc.length = row * block.layout.rowWidth + position ∧ block.Decoded acc)
    (fun position hposition acc hacc => ?_) ⟨hlength, houtput⟩
  obtain ⟨scale, hscale⟩ :=
    h.scales_valid row hrow _ (block.layout.div_lt_groupsPerRow hposition)
  refine ⟨acc ++ [decodeCode (block.code row position) scale], ?_, ?_,
    hacc.2.append hacc.1 hposition hscale⟩
  · have hnibble : nibble rowCodes position = .ok (block.code row position) := by
      rw [← hcode position (by omega)]
      exact nibble_of_lt (by omega)
    simp only [block.scale_eq_ok_iff.2 hscale, hnibble, Except.ok_bind]
    rfl
  · rw [List.length_append, List.length_singleton, hacc.1, Nat.add_assoc]

/-- Decoding a well-formed block gives the value at each place of its matrix, unless the host
refuses the memory. -/
theorem decode_values {block : CpuFp4E2M1KvBlockV1} (h : block.WellFormed) :
    ∃ values, values.length = block.layout.rows * block.layout.rowWidth ∧ block.Decoded values ∧
      ∀ host : Allocator,
        ((∃ capacity, host.answer 0 (block.layout.rows * block.layout.rowWidth) = .ok capacity) ∧
          (block.decode.run host).1 = .ok values) ∨
        ((∃ error, host.answer 0 (block.layout.rows * block.layout.rowWidth) = .error error) ∧
          (block.decode.run host).1 = .error (.error .allocationFailed)) := by
  have hrows : ∃ values, (List.range block.layout.rows).foldlM
      (block.decodeRow block.layout.codeBytesPerRow) [] = .ok values ∧
        values.length = block.layout.rows * block.layout.rowWidth ∧ block.Decoded values := by
    refine Outcome.foldlM_range_total (fun row (acc : List F32) =>
      acc.length = row * block.layout.rowWidth ∧ block.Decoded acc)
      (fun row hrow acc hacc => exists_decodeRow_eq h hrow hacc.2 hacc.1)
      ⟨(Nat.zero_mul _).symm, nofun⟩
  obtain ⟨values, hrun, hlength, hdecoded⟩ := hrows
  refine ⟨values, hlength, hdecoded, fun host => ?_⟩
  simp only [decode, hostLen_of_lt block.layout.rows_lt, Fallible.ofExcept_ok_bind,
    checkedMul_of_lt block.layout.sizes_lt.1, Outcome.okOr,
    hostLen_of_lt block.layout.codeBytesPerRow_lt, hrun]
  rw [Fallible.run_bind_ok (m := tryReserveExact _) rfl]
  cases hanswer : host.answer 0 (block.layout.rows * block.layout.rowWidth) with
  | ok capacity => exact .inl ⟨⟨capacity, rfl⟩, rfl⟩
  | error error => exact .inr ⟨⟨error, rfl⟩, rfl⟩

/-! ### The round trip -/

/-- Encoding and reassembly agree.

* What an accepted encoding returns has the lengths its layout states and zero padding, and
  reassembling its layout, codes and scales gives it back.
* On arbitrary byte vectors the reassembly does not panic and accepts exactly the well-formed
  blocks, and an accepted block decodes to a value for each place of its matrix, unless the host
  refuses the memory. -/
theorem wire_round_trip (log2Ceil : F64 → ℤ) (layout : Fp4E2M1KvLayoutV1) :
    (∀ values host block host', (encode log2Ceil layout values).run host = (.ok block, host') →
      (∃ storage, layout.storage = .ok storage ∧ block.codes.length = storage.codeBytes ∧
        block.scales.length = storage.scaleBytes) ∧
      (∀ row < layout.rows, ∀ position < layout.paddedRowWidth, layout.rowWidth ≤ position →
        nibbleAt block.codes (row * layout.paddedRowWidth + position) = 0) ∧
      fromParts layout block.codes block.scales = .ok block) ∧
    ∀ codes scales, Outcome.Safe (fromParts layout codes scales) ∧
      (∀ block, fromParts layout codes scales = .ok block ↔
        block = ⟨layout, codes, scales⟩ ∧ block.WellFormed) ∧
      ∀ block host, fromParts layout codes scales = .ok block →
        (∃ values, (block.decode.run host).1 = .ok values ∧
            values.length = layout.rows * layout.rowWidth) ∨
          ((∃ error, host.answer 0 (layout.rows * layout.rowWidth) = .error error) ∧
            (block.decode.run host).1 = .error (.error .allocationFailed)) := by
  refine ⟨fun values host block host' hrun => ?_, fun codes scales =>
    ⟨fromParts_safe layout codes scales, fun block => fromParts_eq_ok_iff,
      fun block host hok => ?_⟩⟩
  · obtain ⟨rfl, hwell⟩ := (wellFormed_encode log2Ceil layout values).ok trivial hrun
    exact ⟨⟨_, block.layout.storage_eq, hwell.length_codes _ block.layout.storage_eq,
      hwell.length_scales _ block.layout.storage_eq⟩, hwell.padding,
      fromParts_eq_ok_iff.2 ⟨rfl, hwell⟩⟩
  · obtain ⟨rfl, hwell⟩ := fromParts_eq_ok_iff.1 hok
    obtain ⟨values, hlength, -, hrun⟩ := decode_values hwell
    exact (hrun host).imp (fun hok => ⟨values, hok.2, hlength⟩) id

end CpuFp4E2M1KvBlockV1

end NNIS
