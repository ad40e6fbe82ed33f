import NNIS.Codec.SelfDelimiting
import NNIS.Memory.Lane
import NNIS.Memory.Tabulate
import NNIS.Model.ReconstructionError
import NNIS.Numeric.Bytes
import NNIS.Rt.Driver
import NNIS.Semantics.Checked
import NNIS.Semantics.Outcome

/-!
# Magnitude-sparse reference tensors

A tensor is stored as one occupancy bit for each value and the values whose magnitude exceeds a
threshold, in their order. The other values are read back as zero. The functions are those of
`nnis-model/src/sparse_reference.rs`.

## Main definitions

* `SparseReferenceTensorV1`, `SparseReferenceTensorV1.canonicalSerializedBytes`.
* `sparsifyMagnitudeReferenceV1`, `densifySparseReferenceV1`.
* `prune` — a value, or zero if its magnitude does not exceed the threshold.

## Main results

* `exists_sparsify` — finite values are stored.
* `densify_sparsify` — what has been stored is read back pruned.
* `resparsify` — what has been read back is stored alike.
-/

set_option autoImplicit false

namespace NNIS

/-- Magic, element count, threshold and retained count. -/
def nnisSparseReferenceSerializedHeaderBytes : ℕ := 24

/-- The stored form of one tensor. -/
structure SparseReferenceTensorV1 where
  elementCount : ℕ
  threshold : F32
  occupancyBitmap : List UInt8
  retainedValues : List F32
  maxAbsError : F32
  meanSquaredError : F64

/-- The value at an index is retained. -/
def sparseOccupied (bitmap : List UInt8) (index : ℕ) : Bool :=
  bitmap.getD (index / 8) 0 &&& (1 <<< UInt8.ofNat (index % 8)) != 0

/-- A threshold that magnitudes can be compared with. -/
def validThreshold (threshold : F32) : Bool := threshold.isFinite && !threshold.lt (.zero false)

/-- What every user of a stored tensor checks first. -/
def validateSparseTensor (sparse : SparseReferenceTensorV1) : Except NnisError Unit :=
  if sparse.elementCount = 0 then
    .error (.invalidInput "sparse reference tensor has zero logical elements")
  else if !validThreshold sparse.threshold then
    .error (.invalidInput "sparse threshold must be finite and non-negative")
  else if !validEvidence sparse.maxAbsError sparse.meanSquaredError then
    .error (.invalidInput "sparse reconstruction evidence is invalid")
  else if sparse.retainedValues.any fun value => !value.isFinite then
    .error (.invalidInput "sparse retained values must all be finite")
  else
    match checkedAdd sparse.elementCount 7 with
    | none => .error (.invalidInput "sparse bitmap size overflows usize")
    | some padded =>
      let expectedBitmap := padded / 8
      let occupied := (List.range sparse.elementCount).countP
        (sparseOccupied sparse.occupancyBitmap)
      let usedBits := sparse.elementCount % 8
      let paddingMask : UInt8 := ~~~((1 <<< UInt8.ofNat usedBits) - 1)
      if sparse.occupancyBitmap.length ≠ expectedBitmap then
        .error (.invalidInput (s!"sparse bitmap has {sparse.occupancyBitmap.length} bytes; " ++
          s!"expected {expectedBitmap}"))
      else if occupied ≠ sparse.retainedValues.length then
        .error (.invalidInput (s!"sparse bitmap contains {occupied} occupied values but " ++
          s!"{sparse.retainedValues.length} values are retained"))
      else if usedBits ≠ 0 ∧
          sparse.occupancyBitmap.getD (expectedBitmap - 1) 0 &&& paddingMask ≠ 0 then
        .error (.invalidInput "sparse bitmap padding bits must be zero")
      else .ok ⟨⟩

/-- Magic, element count, threshold, retained count, bitmap and retained values. -/
def SparseReferenceTensorV1.encoded (sparse : SparseReferenceTensorV1) : List UInt8 :=
  -- `NSP1`
  [0x4E, 0x53, 0x50, 0x31] ++ leBytes 8 sparse.elementCount ++ sparse.threshold.toLeBytes ++
    leBytes 8 sparse.retainedValues.length ++ sparse.occupancyBitmap ++
    F32.bytes sparse.retainedValues

/-- The canonical bytes of a stored tensor. -/
def SparseReferenceTensorV1.canonicalSerializedBytes (sparse : SparseReferenceTensorV1) :
    Except NnisError (List UInt8) := do
  validateSparseTensor sparse
  match checkedMul sparse.retainedValues.length 4 with
  | none => .error (.invalidInput "sparse value bytes overflow usize")
  | some valueBytes =>
    match (checkedAdd nnisSparseReferenceSerializedHeaderBytes
        sparse.occupancyBitmap.length).bind (checkedAdd · valueBytes) with
    | none => .error (.invalidInput "sparse serialized size overflows usize")
    | some _ => .ok sparse.encoded

/-- The magnitude of a value exceeds the threshold. -/
def exceeds (threshold value : F32) : Bool := threshold.lt value.abs

/-- The bitmap, the retained values and the report of the errors of values. -/
def sparseEncode (threshold : F32) (bitmapLen : ℕ) (values : List F32) :
    Except NnisError (List UInt8 × List F32 × ReconstructionError) :=
  values.zipIdx.foldlM (fun (bitmap, retained, report) (value, index) =>
    if !value.isFinite then
      .error (.invalidInput s!"sparse source value {index} is not finite")
    else if exceeds threshold value then
      .ok (bitmap.modify (index / 8) (· ||| 1 <<< UInt8.ofNat (index % 8)), retained ++ [value],
        report.observe value value)
    else .ok (bitmap, retained, report.observe value (.zero false)))
    (List.replicate bitmapLen 0, [], ReconstructionError.none)

/-- The stored form of values. -/
def sparsifyMagnitudeReferenceV1 (values : List F32) (threshold : F32) :
    Except NnisError SparseReferenceTensorV1 :=
  if values = [] then .error (.invalidInput "sparse reference requires at least one value")
  else if !validThreshold threshold then
    .error (.invalidInput "sparse threshold must be finite and non-negative")
  else
    match checkedAdd values.length 7 with
    | none => .error (.invalidInput "sparse element count overflows usize")
    | some padded => do
      let (bitmap, retained, report) ← sparseEncode threshold (padded / 8) values
      let tensor : SparseReferenceTensorV1 :=
        { elementCount := values.length
          threshold := threshold
          occupancyBitmap := bitmap
          retainedValues := retained
          maxAbsError := report.maxAbsError
          meanSquaredError := report.meanSquaredError values.length }
      validateSparseTensor tensor
      .ok tensor

/-- The values of a stored tensor. -/
def densifySparseReferenceV1 (sparse : SparseReferenceTensorV1) : Except NnisError (List F32) := do
  validateSparseTensor sparse
  let (retainedIndex, output) ← (List.range sparse.elementCount).foldlM
    (fun (retainedIndex, output) index =>
      if sparseOccupied sparse.occupancyBitmap index then
        match sparse.retainedValues[retainedIndex]? with
        | none => .error (.invalidInput "sparse bitmap consumes more values than retained")
        | some value => .ok (retainedIndex + 1, output ++ [value])
      else .ok (retainedIndex, output ++ [.zero false])) (0, [])
  if retainedIndex ≠ sparse.retainedValues.length then
    .error (.invalidInput "sparse retained values exceed bitmap occupancy")
  else .ok output

/-- A value, or zero if its magnitude does not exceed the threshold. -/
def prune (threshold value : F32) : F32 :=
  if exceeds threshold value then value else .zero false

/-- Zero does not exceed a threshold that is accepted. -/
theorem exceeds_zero {threshold : F32} (h : validThreshold threshold = true) :
    exceeds threshold (.zero false) = false := by
  rw [validThreshold, Bool.and_eq_true, Bool.not_eq_true'] at h
  exact h.2

@[simp] theorem prune_zero (threshold : F32) : prune threshold (.zero false) = .zero false :=
  ite_self _

/-- What is kept is kept again, and nothing else. -/
theorem exceeds_prune {threshold : F32} (h : validThreshold threshold = true) (value : F32) :
    exceeds threshold (prune threshold value) = exceeds threshold value := by
  rw [prune]
  split_ifs with hkeep
  · rfl
  · rw [exceeds_zero h, Bool.not_eq_true] at *
    exact hkeep.symm

theorem isFinite_prune {threshold value : F32} (h : value.isFinite = true) :
    (prune threshold value).isFinite = true := by
  rw [prune]
  split_ifs
  · exact h
  · rfl

/-! ### Occupancy -/

private theorem sparseOccupied_eq (bitmap : List UInt8) (index : ℕ) :
    sparseOccupied bitmap index = (laneAt 1 8 bitmap index != 0) := by
  have hk : index % 8 < 8 := Nat.mod_lt _ (by decide)
  refine Bool.eq_iff_iff.2 ?_
  rw [sparseOccupied, bne_iff_ne, bne_iff_ne, laneAt, ne_eq, ne_eq, not_iff_not,
    ← UInt8.toNat_inj, ← UInt8.toNat_inj, toNat_lane (by omega) Nat.one_pos, UInt8.toNat_and,
    UInt8.toNat_shiftLeft, UInt8.toNat_ofNat', Nat.mod_eq_of_lt (by omega : index % 8 < 2 ^ 8),
    Nat.mod_eq_of_lt hk]
  have hone : (1 : UInt8).toNat <<< (index % 8) % 2 ^ 8 = 2 ^ (index % 8) := by
    change 1 <<< (index % 8) % 2 ^ 8 = _
    rw [Nat.one_shiftLeft]
    exact Nat.mod_eq_of_lt (Nat.pow_lt_pow_right (by decide) hk)
  rw [hone, Nat.and_two_pow, Nat.mul_one, Nat.pow_one]
  have htest := Nat.testBit_eq_decide_div_mod_eq (x := (bitmap.getD (index / 8) 0).toNat)
    (i := index % 8)
  rw [htest]
  have hpos := Nat.two_pow_pos (index % 8)
  rcases Nat.mod_two_eq_zero_or_one ((bitmap.getD (index / 8) 0).toNat / 2 ^ (index % 8)) with h | h
  · rw [h]
    simp
  · rw [h]
    simp

/-- Bytes without bits beyond those in use pass the padding check. -/
private theorem and_paddingMask_eq_zero {byte : UInt8} {used : ℕ} (hused : used < 8)
    (h : ∀ k, used ≤ k → k < 8 → lane 1 k byte = 0) :
    byte &&& ~~~((1 <<< UInt8.ofNat used) - 1) = 0 := by
  have hpow : 2 ^ used < 2 ^ 8 := Nat.pow_lt_pow_right (by decide) hused
  have hshift : ((1 : UInt8) <<< UInt8.ofNat used).toNat = 2 ^ used := by
    rw [UInt8.toNat_shiftLeft, UInt8.toNat_ofNat', Nat.mod_eq_of_lt (by omega : used < 2 ^ 8),
      Nat.mod_eq_of_lt hused]
    change 1 <<< used % 2 ^ 8 = _
    rw [Nat.one_shiftLeft, Nat.mod_eq_of_lt hpow]
  have hmask : (((1 : UInt8) <<< UInt8.ofNat used) - 1).toNat = 2 ^ used - 1 := by
    rw [UInt8.toNat_sub_of_le _ _ (UInt8.le_iff_toNat_le.2 (hshift ▸ Nat.one_le_two_pow)), hshift]
    rfl
  refine UInt8.toNat_inj.1 (Nat.eq_of_testBit_eq fun i => ?_)
  rw [UInt8.toNat_and, Nat.testBit_and, UInt8.toNat_not, hmask, Nat.sub_sub,
    Nat.add_comm 1 (2 ^ used - 1),
    Nat.testBit_two_pow_sub_succ (n := 8) (by omega : 2 ^ used - 1 < 2 ^ 8),
    Nat.testBit_two_pow_sub_one]
  change _ = Nat.testBit 0 i
  rw [Nat.zero_testBit]
  rcases Nat.lt_or_ge i used with hi | hi
  · rw [decide_eq_true hi, Bool.not_true, Bool.and_false, Bool.and_false]
  · rcases Nat.lt_or_ge i 8 with hi8 | hi8
    · have hlane := congrArg UInt8.toNat (h i hi hi8)
      rw [toNat_lane (by omega) Nat.one_pos, Nat.mul_one, Nat.pow_one] at hlane
      rw [Nat.testBit_eq_decide_div_mod_eq, hlane]
      rfl
    · rw [decide_eq_false (by omega), Bool.false_and, Bool.and_false]

/-! ### What the loop stores -/

/-- The occupancy bit of a value. -/
private def sparseBit (threshold value : F32) : UInt8 := if exceeds threshold value then 1 else 0

/-- The report of the loop. -/
def sparseReport (threshold : F32) (values : List F32) : ReconstructionError :=
  values.foldl (fun report value => report.observe value (prune threshold value))
    ReconstructionError.none

theorem sparseReport_concat (threshold : F32) (values : List F32) (value : F32) :
    sparseReport threshold (values ++ [value]) =
      (sparseReport threshold values).observe value (prune threshold value) := by
  rw [sparseReport, List.foldl_append]
  rfl

/-- The loop returns exactly on finite values, with their bits, the retained ones and the report. -/
private theorem sparseEncode_eq_ok_iff {threshold : F32} {bitmapLen : ℕ} {values : List F32}
    {r : List UInt8 × List F32 × ReconstructionError} :
    sparseEncode threshold bitmapLen values = .ok r ↔
      (∀ value ∈ values, value.isFinite = true) ∧
        r = (packLanes 1 8 bitmapLen (values.map (sparseBit threshold)),
          values.filter (exceeds threshold), sparseReport threshold values) := by
  induction values using List.reverseRecOn generalizing r with
  | nil =>
    constructor
    · rintro h
      exact ⟨fun _ h => absurd h List.not_mem_nil, (Except.ok.inj h).symm⟩
    · rintro ⟨-, rfl⟩
      rfl
  | append_singleton values value ih =>
    have hsplit : sparseEncode threshold bitmapLen (values ++ [value]) =
        sparseEncode threshold bitmapLen values >>= fun r =>
          if !value.isFinite then
            .error (.invalidInput s!"sparse source value {values.length} is not finite")
          else if exceeds threshold value then
            .ok (r.1.modify (values.length / 8) (· ||| 1 <<< UInt8.ofNat (values.length % 8)),
              r.2.1 ++ [value], r.2.2.observe value value)
          else .ok (r.1, r.2.1, r.2.2.observe value (.zero false)) := by
      rw [sparseEncode, List.zipIdx_append, List.foldlM_append, Nat.zero_add]
      exact congrArg _ (funext fun r => bind_pure _)
    have hlast : ∀ r' : List UInt8 × List F32 × ReconstructionError,
        r' = (packLanes 1 8 bitmapLen (values.map (sparseBit threshold)),
          values.filter (exceeds threshold), sparseReport threshold values) →
        (if exceeds threshold value then
          Except.ok (r'.1.modify (values.length / 8)
              (· ||| 1 <<< UInt8.ofNat (values.length % 8)),
            r'.2.1 ++ [value], r'.2.2.observe value value)
        else .ok (r'.1, r'.2.1, r'.2.2.observe value (.zero false)) : Except NnisError _) =
          .ok (packLanes 1 8 bitmapLen ((values ++ [value]).map (sparseBit threshold)),
            (values ++ [value]).filter (exceeds threshold),
            sparseReport threshold (values ++ [value])) := by
      rintro _ rfl
      rw [List.map_append, List.map_singleton, packLanes_concat, List.length_map,
        List.filter_append, sparseReport_concat, sparseBit, prune, List.filter_singleton]
      by_cases hkeep : exceeds threshold value = true
      · simp only [hkeep, ↓reduceIte, orLane_one, cond_true]
      · rw [Bool.not_eq_true] at hkeep
        simp only [hkeep, Bool.false_eq_true, ↓reduceIte, orLane_zero, List.modify_id, cond_false,
          List.append_nil]
    rw [hsplit, Except.bind_eq_ok_iff]
    simp only [ih, List.mem_append, List.mem_singleton, Except.ite_error_eq_ok_iff,
      Bool.not_eq_true', Bool.not_eq_false]
    constructor
    · rintro ⟨_, ⟨hfinite, hr⟩, hvalue, h⟩
      rw [hlast _ hr] at h
      exact ⟨fun v hv => hv.elim (hfinite v) fun hv => hv ▸ hvalue, (Except.ok.inj h).symm⟩
    · rintro ⟨hfinite, rfl⟩
      exact ⟨_, ⟨fun v hv => hfinite v (Or.inl hv), rfl⟩, hfinite value (Or.inr rfl), hlast _ rfl⟩

/-- The bits that the loop stores. -/
private theorem sparseOccupied_pack {threshold : F32} {values : List F32} {index : ℕ}
    (hindex : index < values.length) :
    sparseOccupied
        (packLanes 1 8 ((values.length + 7) / 8) (values.map (sparseBit threshold))) index =
      exceeds threshold (values.getD index (.zero false)) := by
  have hread : laneAt 1 8
      (packLanes 1 8 ((values.length + 7) / 8) (values.map (sparseBit threshold))) index =
        (values.map (sparseBit threshold)).getD index 0 := by
    refine (laneAt_packLanes 1 8 ((values.length + 7) / 8) (by decide) (by decide) (by decide)
      (fun code hcode => ?_) ?_).2 index
    · obtain ⟨value, -, rfl⟩ := List.mem_map.1 hcode
      rw [sparseBit]
      split_ifs <;> decide
    · rw [List.length_map]
      omega
  rw [sparseOccupied_eq, hread, List.getD_eq_getElem?_getD, List.getElem?_map,
    List.getD_eq_getElem?_getD, List.getElem?_eq_getElem hindex, Option.map_some,
    Option.getD_some, Option.getD_some, sparseBit]
  cases exceeds threshold values[index] <;> rfl

theorem validateSparseTensor_eq_ok_iff {sparse : SparseReferenceTensorV1} :
    validateSparseTensor sparse = .ok ⟨⟩ ↔
      0 < sparse.elementCount ∧ validThreshold sparse.threshold = true ∧
        validEvidence sparse.maxAbsError sparse.meanSquaredError = true ∧
        (∀ value ∈ sparse.retainedValues, value.isFinite = true) ∧
        sparse.elementCount + 7 < wordLimit ∧
        sparse.occupancyBitmap.length = (sparse.elementCount + 7) / 8 ∧
        (List.range sparse.elementCount).countP (sparseOccupied sparse.occupancyBitmap) =
          sparse.retainedValues.length ∧
        (sparse.elementCount % 8 ≠ 0 →
          sparse.occupancyBitmap.getD ((sparse.elementCount + 7) / 8 - 1) 0 &&&
            ~~~((1 <<< UInt8.ofNat (sparse.elementCount % 8)) - 1) = 0) := by
  rw [validateSparseTensor, Except.ite_error_eq_ok_iff, Except.ite_error_eq_ok_iff,
    Except.ite_error_eq_ok_iff, Except.ite_error_eq_ok_iff, Nat.pos_iff_ne_zero, checkedAdd]
  refine and_congr_right fun _ => and_congr (by simp) (and_congr (by simp) (and_congr ?_ ?_))
  · simp only [List.any_eq_true, Bool.not_eq_true', not_exists, not_and, Bool.not_eq_false]
  · by_cases hfit : sparse.elementCount + 7 < wordLimit
    · rw [if_pos hfit]
      simp only [Except.ite_error_eq_ok_iff, hfit, true_and, not_not, ne_eq, not_and, and_true]
    · rw [if_neg hfit]
      simp only [hfit, false_and, reduceCtorEq]

/-- What a successful conversion has checked and stored. -/
private theorem sparsify_eq_ok_stored {values : List F32} {threshold : F32}
    {sparse : SparseReferenceTensorV1}
    (h : sparsifyMagnitudeReferenceV1 values threshold = .ok sparse) :
    values ≠ [] ∧ validThreshold threshold = true ∧ (∀ value ∈ values, value.isFinite = true) ∧
      validateSparseTensor sparse = .ok ⟨⟩ ∧ sparse.elementCount = values.length ∧
      sparse.threshold = threshold ∧ sparse.retainedValues = values.filter (exceeds threshold) ∧
      sparse.occupancyBitmap =
        packLanes 1 8 ((values.length + 7) / 8) (values.map (sparseBit threshold)) := by
  rw [sparsifyMagnitudeReferenceV1, Except.ite_error_eq_ok_iff, Except.ite_error_eq_ok_iff,
    Bool.not_eq_true', Bool.not_eq_false, checkedAdd] at h
  obtain ⟨hne, hthreshold, h⟩ := h
  by_cases hfit : values.length + 7 < wordLimit
  · rw [if_pos hfit] at h
    obtain ⟨r, hencode, h⟩ := Except.bind_eq_ok_iff.1 h
    obtain ⟨hfinite, rfl⟩ := sparseEncode_eq_ok_iff.1 hencode
    obtain ⟨_, hvalid, h⟩ := Except.bind_eq_ok_iff.1 h
    obtain rfl := Except.ok.inj h
    exact ⟨hne, hthreshold, hfinite, hvalid, rfl, rfl, rfl, rfl⟩
  · rw [if_neg hfit] at h
    exact nomatch h

/-- A successful conversion has only finite values, and stores their bits and the retained ones. -/
theorem sparsify_eq_ok {values : List F32} {threshold : F32} {sparse : SparseReferenceTensorV1}
    (h : sparsifyMagnitudeReferenceV1 values threshold = .ok sparse) :
    validateSparseTensor sparse = .ok ⟨⟩ ∧ sparse.elementCount = values.length ∧
      sparse.retainedValues = values.filter (exceeds threshold) ∧
      ∀ index < values.length, sparseOccupied sparse.occupancyBitmap index =
        exceeds threshold (values.getD index (.zero false)) := by
  obtain ⟨-, -, -, hvalid, hcount, -, hretained, hbitmap⟩ := sparsify_eq_ok_stored h
  exact ⟨hvalid, hcount, hretained, fun index hindex => hbitmap ▸ sparseOccupied_pack hindex⟩

/-- An element that is kept has as many kept elements before it as its place among them says. -/
private theorem getElem?_filter_take {α : Type} {p : α → Bool} {l : List α} {n : ℕ} {a : α}
    (hget : l[n]? = some a) (hkeep : p a = true) :
    (l.filter p)[((l.take n).filter p).length]? = some a := by
  induction l generalizing n with
  | nil => exact nomatch hget
  | cons b l ih =>
    cases n with
    | zero =>
      obtain rfl : b = a := Option.some.inj hget
      rw [List.filter_cons_of_pos hkeep]
      rfl
    | succ n =>
      rw [List.getElem?_cons_succ] at hget
      rw [List.take_succ_cons]
      by_cases hb : p b = true
      · rw [List.filter_cons_of_pos hb, List.filter_cons_of_pos hb, List.length_cons,
          List.getElem?_cons_succ, ih hget]
      · rw [List.filter_cons_of_neg hb, List.filter_cons_of_neg hb, ih hget]

/-- What has been stored is read back pruned. -/
theorem densify_sparsify {values : List F32} {threshold : F32} {sparse : SparseReferenceTensorV1}
    (h : sparsifyMagnitudeReferenceV1 values threshold = .ok sparse) :
    densifySparseReferenceV1 sparse = .ok (values.map (prune threshold)) := by
  obtain ⟨hvalid, hcount, hretained, hoccupied⟩ := sparsify_eq_ok h
  rw [densifySparseReferenceV1, hvalid, Except.ok_bind, hcount]
  -- After a number of rounds the retained values before it are consumed.
  have hrounds : ∀ n ≤ values.length, (List.range n).foldlM
      (fun (s : ℕ × List F32) index =>
        if sparseOccupied sparse.occupancyBitmap index then
          match sparse.retainedValues[s.1]? with
          | none => Except.error (NnisError.invalidInput
              "sparse bitmap consumes more values than retained")
          | some value => Except.ok (s.1 + 1, s.2 ++ [value])
        else .ok (s.1, s.2 ++ [Binary.zero false])) (0, []) =
      .ok (((values.take n).filter (exceeds threshold)).length,
        (values.take n).map (prune threshold)) := by
    intro n
    induction n with
    | zero => exact fun _ => rfl
    | succ n ih =>
      intro hn
      obtain ⟨value, hget⟩ : ∃ value, values[n]? = some value := ⟨_, List.getElem?_eq_getElem hn⟩
      have htake : values.take (n + 1) = values.take n ++ [value] := by
        rw [List.take_add_one, hget]
        rfl
      have hbit := hoccupied n hn
      rw [List.getD_eq_getElem?_getD, hget, Option.getD_some] at hbit
      rw [List.range_succ, List.foldlM_append, ih (by omega), Except.ok_bind, htake,
        List.filter_append, List.map_append, List.map_singleton, List.filter_singleton]
      refine (bind_pure _).trans ?_
      dsimp only
      rw [hbit, prune]
      by_cases hkeep : exceeds threshold value = true
      · have hvalue := getElem?_filter_take hget hkeep
        rw [← hretained] at hvalue
        rw [if_pos hkeep, if_pos hkeep, hkeep]
        simp only [hvalue, cond_true, List.length_append, List.length_singleton]
      · rw [if_neg hkeep, if_neg hkeep, Bool.eq_false_iff.2 hkeep]
        simp only [cond_false, List.append_nil]
  have hall := hrounds values.length (Nat.le_refl _)
  rw [List.take_length] at hall
  refine (congrArg (· >>= _) hall).trans ?_
  rw [Except.ok_bind]
  dsimp only
  rw [if_neg (by rw [hretained]; exact fun h => h rfl)]

/-- The report of the loop is accepted. -/
theorem sparseReport_bounded {threshold : F32} {values : List F32}
    (hfinite : ∀ value ∈ values, value.isFinite = true) (hlength : values.length ≤ 2 ^ 61) :
    (sparseReport threshold values).Bounded values.length := by
  induction values using List.reverseRecOn with
  | nil => exact ReconstructionError.none_bounded
  | append_singleton values value ih =>
    rw [List.length_append, List.length_singleton] at hlength ⊢
    have hvalue := hfinite value (List.mem_append_right _ List.mem_cons_self)
    have hpruned : (prune threshold value).isFinite = true ∧
        (value.signedUnits - (prune threshold value).signedUnits).natAbs ≤
          binary32.units value.magnitude := by
      rw [prune]
      split_ifs
      · exact ⟨hvalue, by rw [sub_self]; exact Nat.zero_le _⟩
      · have hzero : (Binary.zero false : F32).signedUnits = 0 := rfl
        rw [hzero, sub_zero, Binary.natAbs_signedUnits]
        exact ⟨rfl, Nat.le_refl _⟩
    rw [sparseReport_concat]
    exact ReconstructionError.observe_bounded
      (ih (fun v hv => hfinite v (List.mem_append_left _ hv)) (by omega)) (by omega) hvalue
      hpruned.1 (of_decide_eq_true hvalue) hpruned.2

/-- Finite values are stored under a valid threshold, as many as a host slice can hold. -/
theorem exists_sparsify {values : List F32} {threshold : F32} (hne : values ≠ [])
    (hthreshold : validThreshold threshold = true)
    (hfinite : ∀ value ∈ values, value.isFinite = true) (hlength : values.length * 4 ≤ isizeMax) :
    ∃ sparse, sparsifyMagnitudeReferenceV1 values threshold = .ok sparse := by
  have hcount : values.length ≤ 2 ^ 61 := by
    unfold isizeMax at hlength
    omega
  have hpadded : values.length + 7 < wordLimit := by
    unfold wordLimit
    omega
  rw [sparsifyMagnitudeReferenceV1, if_neg hne, hthreshold, if_neg (by decide),
    checkedAdd_of_lt hpadded]
  dsimp only
  rw [sparseEncode_eq_ok_iff.2 ⟨hfinite, rfl⟩, Except.ok_bind]
  dsimp only
  rw [validateSparseTensor_eq_ok_iff.2, Except.ok_bind]
  · exact ⟨_, rfl⟩
  · have hcodes : ∀ code ∈ values.map (sparseBit threshold), code.toNat < 2 ^ 1 := by
      intro code hcode
      obtain ⟨value, -, rfl⟩ := List.mem_map.1 hcode
      rw [sparseBit]
      split_ifs <;> decide
    obtain ⟨hlen, hread⟩ := laneAt_packLanes 1 8 ((values.length + 7) / 8) (by decide)
      (by decide) (by decide) hcodes (by rw [List.length_map]; omega)
    refine ⟨List.length_pos_of_ne_nil hne, hthreshold,
      ReconstructionError.validEvidence_of_bounded (sparseReport_bounded hfinite hcount)
        (List.length_pos_of_ne_nil hne) hcount,
      fun value hvalue => hfinite value (List.mem_filter.1 hvalue).1, hpadded, hlen, ?_,
      fun hpartial => and_paddingMask_eq_zero (Nat.mod_lt _ (by decide)) ?_⟩
    · have hretained : (values.filter (exceeds threshold)).length = (List.range
          values.length).countP (exceeds threshold ∘ (values.getD · (.zero false))) := by
        rw [← List.countP_map, ← tabulate, tabulate_getD, List.countP_eq_length_filter]
      rw [hretained]
      refine List.countP_congr fun index hindex => ?_
      rw [sparseOccupied_pack (List.mem_range.1 hindex)]
      rfl
    · dsimp only at hpartial ⊢
      intro k hk hk8
      have hposition := hread (8 * (values.length / 8) + k)
      rw [List.getD_eq_getElem?_getD, List.getElem?_eq_none (by rw [List.length_map]; omega),
        laneAt, Nat.mul_add_mod, Nat.mod_eq_of_lt hk8, Nat.mul_add_div (by decide),
        Nat.div_eq_of_lt hk8, Nat.add_zero] at hposition
      have hlast : (values.length + 7) / 8 - 1 = values.length / 8 := by omega
      rw [hlast]
      exact hposition

/-! ### The pruned values -/

/-- The tensors store the same, whatever error is reported for them. -/
def SparseReferenceTensorV1.SameStored (a b : SparseReferenceTensorV1) : Prop :=
  { a with maxAbsError := b.maxAbsError, meanSquaredError := b.meanSquaredError } = b

/-- Which values of a host slice are stored. -/
theorem exists_sparsify_iff {values : List F32} {threshold : F32}
    (hlength : values.length * 4 ≤ isizeMax) :
    (∃ sparse, sparsifyMagnitudeReferenceV1 values threshold = .ok sparse) ↔
      values ≠ [] ∧ validThreshold threshold = true ∧ ∀ value ∈ values, value.isFinite = true := by
  constructor
  · rintro ⟨sparse, h⟩
    obtain ⟨hne, hthreshold, hfinite, -⟩ := sparsify_eq_ok_stored h
    exact ⟨hne, hthreshold, hfinite⟩
  · rintro ⟨hne, hthreshold, hfinite⟩
    exact exists_sparsify hne hthreshold hfinite hlength

/-- The pruned values are stored as the values themselves. -/
theorem resparsify {values : List F32} {threshold : F32} {sparse : SparseReferenceTensorV1}
    (h : sparsifyMagnitudeReferenceV1 values threshold = .ok sparse)
    (hlength : values.length * 4 ≤ isizeMax) :
    ∃ again, sparsifyMagnitudeReferenceV1 (values.map (prune threshold)) threshold = .ok again ∧
      again.SameStored sparse := by
  obtain ⟨hne, hthreshold, hfinite, -, hcount, hstored, hretained, hbitmap⟩ :=
    sparsify_eq_ok_stored h
  have hpruned : (values.map (prune threshold)).length * 4 ≤ isizeMax := by
    rwa [List.length_map]
  obtain ⟨again, hagain⟩ := (exists_sparsify_iff hpruned).2
    ⟨by rwa [ne_eq, List.map_eq_nil_iff], hthreshold, by
      intro value hvalue
      obtain ⟨source, hmem, rfl⟩ := List.mem_map.1 hvalue
      exact isFinite_prune (hfinite source hmem)⟩
  refine ⟨again, hagain, ?_⟩
  obtain ⟨-, -, -, -, hcount', hstored', hretained', hbitmap'⟩ := sparsify_eq_ok_stored hagain
  have hbits : (values.map (prune threshold)).map (sparseBit threshold) =
      values.map (sparseBit threshold) := by
    rw [List.map_map]
    refine List.map_congr_left fun value _ => ?_
    rw [Function.comp_apply, sparseBit, exceeds_prune hthreshold, sparseBit]
  have hkept : (values.map (prune threshold)).filter (exceeds threshold) =
      values.filter (exceeds threshold) := by
    have hkeep : exceeds threshold ∘ prune threshold = exceeds threshold :=
      funext (exceeds_prune hthreshold)
    rw [List.filter_map, hkeep]
    refine (List.map_congr_left fun value hvalue => ?_).trans (List.map_id _)
    rw [prune, if_pos (List.mem_filter.1 hvalue).2, id]
  rw [List.length_map] at hcount' hbitmap'
  rw [hbits] at hbitmap'
  rw [hkept] at hretained'
  cases again
  cases sparse
  dsimp only at *
  subst hcount' hstored' hretained' hbitmap' hcount hstored hretained hbitmap
  rfl

end NNIS
