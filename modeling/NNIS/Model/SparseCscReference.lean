import Mathlib.Data.FinEnum
import NNIS.Codec.SelfDelimiting
import NNIS.Memory.Tabulate
import NNIS.Model.SparseReference
import NNIS.Sequence.Compressed

/-!
# Magnitude-sparse matrices by columns

A matrix is stored as the values whose magnitude exceeds a threshold, column behind column, with
the row of each value and the positions at which the columns start. The functions are those of
`nnis-model/src/sparse_csc_reference.rs`; an index out of range and a dense buffer that exceeds
the address space are panics.

## Main definitions

* `SparseCscReferenceMatrixV1`, `SparseCscReferenceMatrixV1.validate`,
  `SparseCscReferenceMatrixV1.canonicalSerializedBytes`.
* `sparsifyMatrixCscReferenceV1`, `densifyMatrixCscReferenceV1`.

## Main results

* `SparseCscReferenceMatrixV1.validate_eq_ok_iff` — what is accepted.
* `SparseCscReferenceMatrixV1.sameStored_of_canonicalSerializedBytes_eq` — the canonical bytes of
  accepted matrices determine what they store.
-/

set_option autoImplicit false

namespace NNIS

open Outcome

/-- Magic, rows, columns, threshold and number of values. -/
def nnisSparseCscSerializedHeaderBytes : ℕ := 32

/-- The stored form of one matrix. -/
structure SparseCscReferenceMatrixV1 where
  rows : UInt64
  cols : UInt64
  threshold : F32
  columnOffsets : List UInt64
  rowIndices : List UInt32
  values : List F32
  maxAbsError : F32
  meanSquaredError : F64

/-- A size as a 32-bit integer. -/
def u32TryFrom (n : ℕ) : Option UInt32 := if n < UInt32.size then some (UInt32.ofNat n) else none

/-- A size as a 64-bit integer. -/
def u64TryFrom (n : ℕ) : Option UInt64 := if n < UInt64.size then some (UInt64.ofNat n) else none

namespace SparseCscReferenceMatrixV1

/-- Where the values of a column start and stop. -/
def columnBounds (matrix : SparseCscReferenceMatrixV1) (col : ℕ) : Outcome NnisError (ℕ × ℕ) := do
  let start ← index matrix.columnOffsets col
  let stop ← index matrix.columnOffsets (col + 1)
  .ok (start.toNat, stop.toNat)

/-- The check of one value behind the previous row of its column. -/
def checkEntry (matrix : SparseCscReferenceMatrixV1) (rows : UInt32) (position : ℕ)
    (previous : Option UInt32) : Outcome NnisError (Option UInt32) := do
  let row ← index matrix.rowIndices position
  require (row < rows) (.invalidInput "sparse CSC row index exceeds matrix row count")
  require (∀ value ∈ previous, value < row)
    (.invalidInput "sparse CSC rows must be strictly increasing within each column")
  let value ← index matrix.values position
  require (value.isFinite = true) (.invalidInput "sparse CSC retained values must be finite")
  .ok (some row)

/-- The check of one column. -/
def checkColumn (matrix : SparseCscReferenceMatrixV1) (rows : UInt32) (col : ℕ) :
    Outcome NnisError PUnit := do
  let (start, stop) ← matrix.columnBounds col
  require (start ≤ stop ∧ stop ≤ matrix.values.length)
    (.invalidInput "sparse CSC column offsets are not monotonic and bounded")
  let _ ← (List.range (stop - start)).foldlM
    (fun previous i => matrix.checkEntry rows (start + i) previous) none
  .ok ⟨⟩

/-- What every user of a stored matrix checks first. -/
def validate (matrix : SparseCscReferenceMatrixV1) : Outcome NnisError PUnit := do
  require (matrix.rows ≠ 0 ∧ matrix.cols ≠ 0)
    (.invalidInput "sparse CSC matrix dimensions must be non-zero")
  require (validThreshold matrix.threshold = true)
    (.invalidInput "sparse CSC threshold must be finite and non-negative")
  require (validEvidence matrix.maxAbsError matrix.meanSquaredError = true)
    (.invalidInput "sparse CSC reconstruction evidence is invalid")
  let expectedOffsets ← okOr (checkedAdd matrix.cols.toNat 1)
    (.invalidInput "sparse CSC offset count overflows usize")
  require (matrix.columnOffsets.length = expectedOffsets)
    (.invalidInput (s!"sparse CSC has {matrix.columnOffsets.length} column offsets; " ++
      s!"expected {expectedOffsets}"))
  require (matrix.rowIndices.length = matrix.values.length)
    (.invalidInput "sparse CSC row-index and value lengths disagree")
  require (matrix.columnOffsets.head? = some 0)
    (.invalidInput "sparse CSC first column offset must be zero")
  let nnz ← okOr (u64TryFrom matrix.values.length) (.invalidInput "sparse CSC NNZ exceeds u64")
  require (matrix.columnOffsets.getLast? = some nnz)
    (.invalidInput "sparse CSC final column offset must equal NNZ")
  let rows ← okOr (u32TryFrom matrix.rows.toNat)
    (.unsupported "sparse CSC row count exceeds u32 index domain")
  (List.range matrix.cols.toNat).forM (matrix.checkColumn rows)

/-- Magic, rows, columns, threshold, number of values, offsets, row indices and values. -/
def encoded (matrix : SparseCscReferenceMatrixV1) : List UInt8 :=
  -- `NSC1`
  [0x4E, 0x53, 0x43, 0x31] ++ leBytes 8 matrix.rows.toNat ++ leBytes 8 matrix.cols.toNat ++
    matrix.threshold.toLeBytes ++ leBytes 8 matrix.values.length ++
    matrix.columnOffsets.flatMap (leBytes 8 ·.toNat) ++
    matrix.rowIndices.flatMap (leBytes 4 ·.toNat) ++ F32.bytes matrix.values

/-- The canonical bytes of a stored matrix. -/
def canonicalSerializedBytes (matrix : SparseCscReferenceMatrixV1) :
    Outcome NnisError (List UInt8) := do
  matrix.validate
  let _ ← okOr (u64TryFrom matrix.values.length) (.invalidInput "sparse CSC NNZ exceeds u64")
  let offsetsBytes ← okOr (checkedMul matrix.columnOffsets.length 8)
    (.invalidInput "sparse CSC offset bytes overflow usize")
  let indicesBytes ← okOr (checkedMul matrix.rowIndices.length 4)
    (.invalidInput "sparse CSC index bytes overflow usize")
  let valuesBytes ← okOr (checkedMul matrix.values.length 4)
    (.invalidInput "sparse CSC value bytes overflow usize")
  let _ ← okOr (((checkedAdd nnisSparseCscSerializedHeaderBytes offsetsBytes).bind
      (checkedAdd · indicesBytes)).bind (checkedAdd · valuesBytes))
    (.invalidInput "sparse CSC serialized size overflows usize")
  .ok matrix.encoded

end SparseCscReferenceMatrixV1

/-- One value of the source: its row and itself are kept if its magnitude exceeds the threshold. -/
def sparsifyCscEntry (dense : List F32) (cols : ℕ) (threshold : F32) (col : ℕ)
    (state : List UInt32 × List F32 × ReconstructionError) (row : ℕ) :
    Outcome NnisError (List UInt32 × List F32 × ReconstructionError) := do
  let (rowIndices, values, report) := state
  let value ← index dense (row * cols + col)
  require (value.isFinite = true)
    (.invalidInput s!"sparse CSC source value ({row}, {col}) is not finite")
  if exceeds threshold value then do
    let rowIndex ← okOr (u32TryFrom row) (.unsupported "sparse CSC row exceeds u32 index domain")
    .ok (rowIndices ++ [rowIndex], values ++ [value], report.observe value value)
  else .ok (rowIndices, values, report.observe value (.zero false))

/-- One column of the source. -/
def sparsifyCscColumn (dense : List F32) (rows cols : ℕ) (threshold : F32)
    (state : List UInt64 × List UInt32 × List F32 × ReconstructionError) (col : ℕ) :
    Outcome NnisError (List UInt64 × List UInt32 × List F32 × ReconstructionError) := do
  let (columnOffsets, entries) := state
  let entries ← (List.range rows).foldlM (sparsifyCscEntry dense cols threshold col) entries
  let nnz ← okOr (u64TryFrom entries.2.1.length) (.invalidInput "sparse CSC NNZ exceeds u64")
  .ok (columnOffsets ++ [nnz], entries)

/-- The stored form of a row-major matrix. -/
def sparsifyMatrixCscReferenceV1 (dense : List F32) (rows cols : ℕ) (threshold : F32) :
    Outcome NnisError SparseCscReferenceMatrixV1 := do
  require (rows ≠ 0 ∧ cols ≠ 0) (.invalidInput "sparse CSC source dimensions must be non-zero")
  require (validThreshold threshold = true)
    (.invalidInput "sparse CSC threshold must be finite and non-negative")
  let elements ← okOr (checkedMul rows cols)
    (.invalidInput "sparse CSC source shape overflows usize")
  require (dense.length = elements)
    (.invalidInput (s!"sparse CSC source has {dense.length} values; shape ({rows}, {cols}) " ++
      s!"requires {elements}"))
  let rowsU64 ← okOr (u64TryFrom rows) (.invalidInput "sparse CSC rows exceed u64")
  let colsU64 ← okOr (u64TryFrom cols) (.invalidInput "sparse CSC cols exceed u64")
  let _ ← okOr (u32TryFrom rows) (.unsupported "sparse CSC rows exceed u32 index domain")
  let (columnOffsets, rowIndices, values, report) ← (List.range cols).foldlM
    (sparsifyCscColumn dense rows cols threshold) ([0], [], [], ReconstructionError.none)
  let matrix : SparseCscReferenceMatrixV1 :=
    { rows := rowsU64
      cols := colsU64
      threshold := threshold
      columnOffsets := columnOffsets
      rowIndices := rowIndices
      values := values
      maxAbsError := report.maxAbsError
      meanSquaredError := report.meanSquaredError elements }
  matrix.validate
  .ok matrix

/-- One value of a column, written to its place. -/
def densifyCscEntry (sparse : SparseCscReferenceMatrixV1) (col position : ℕ) (dense : List F32) :
    Outcome NnisError (List F32) := do
  let row ← index sparse.rowIndices position
  let value ← index sparse.values position
  modifyAt dense (row.toNat * sparse.cols.toNat + col) fun _ => value

/-- The values of one column. -/
def densifyCscColumn (sparse : SparseCscReferenceMatrixV1) (dense : List F32) (col : ℕ) :
    Outcome NnisError (List F32) := do
  let (start, stop) ← sparse.columnBounds col
  (List.range (stop - start)).foldlM
    (fun dense i => densifyCscEntry sparse col (start + i) dense) dense

/-- The row-major matrix of a stored one. -/
def densifyMatrixCscReferenceV1 (sparse : SparseCscReferenceMatrixV1) :
    Outcome NnisError (List F32) := do
  sparse.validate
  let elements ← okOr (checkedMul sparse.rows.toNat sparse.cols.toNat)
    (.invalidInput "sparse CSC dense shape overflows usize")
  let dense ← if elements * 4 ≤ isizeMax then .ok (List.replicate elements (.zero false))
    else .error .panic
  (List.range sparse.cols.toNat).foldlM (densifyCscColumn sparse) dense

/-! ### What is accepted -/

theorem u32TryFrom_eq_some_iff {n : ℕ} {x : UInt32} :
    u32TryFrom n = some x ↔ n < UInt32.size ∧ UInt32.ofNat n = x := by
  unfold u32TryFrom
  split_ifs with h
  · rw [Option.some.injEq]
    exact ⟨fun hx => ⟨h, hx⟩, fun hx => hx.2⟩
  · exact ⟨nofun, fun hx => absurd hx.1 h⟩

theorem u64TryFrom_eq_some_iff {n : ℕ} {x : UInt64} :
    u64TryFrom n = some x ↔ n < UInt64.size ∧ UInt64.ofNat n = x := by
  unfold u64TryFrom
  split_ifs with h
  · rw [Option.some.injEq]
    exact ⟨fun hx => ⟨h, hx⟩, fun hx => hx.2⟩
  · exact ⟨nofun, fun hx => absurd hx.1 h⟩

namespace SparseCscReferenceMatrixV1

variable {matrix : SparseCscReferenceMatrixV1}

/-- The row before a value of a column. -/
def rowBefore (matrix : SparseCscReferenceMatrixV1) (start i : ℕ) : Option UInt32 :=
  if i = 0 then none else matrix.rowIndices[start + i - 1]?

/-- A value of a column: finite, in a row of the matrix behind the row before. -/
def EntryValid (matrix : SparseCscReferenceMatrixV1) (rows : UInt32) (start i : ℕ) : Prop :=
  ∃ row value, matrix.rowIndices[start + i]? = some row ∧ row < rows ∧
    (∀ previous ∈ matrix.rowBefore start i, previous < row) ∧
    matrix.values[start + i]? = some value ∧ value.isFinite = true

/-- A column whose values are accepted. -/
def ColumnValid (matrix : SparseCscReferenceMatrixV1) (rows : UInt32) (col : ℕ) : Prop :=
  ∃ start stop, matrix.columnOffsets[col]? = some start ∧
    matrix.columnOffsets[col + 1]? = some stop ∧ start.toNat ≤ stop.toNat ∧
    stop.toNat ≤ matrix.values.length ∧
    ∀ i < stop.toNat - start.toNat, matrix.EntryValid rows start.toNat i

/-- A matrix that is accepted. -/
structure Valid (matrix : SparseCscReferenceMatrixV1) : Prop where
  rows_ne : matrix.rows ≠ 0
  cols_ne : matrix.cols ≠ 0
  threshold : validThreshold matrix.threshold = true
  evidence : validEvidence matrix.maxAbsError matrix.meanSquaredError = true
  cols_lt : matrix.cols.toNat + 1 < wordLimit
  length_offsets : matrix.columnOffsets.length = matrix.cols.toNat + 1
  length_indices : matrix.rowIndices.length = matrix.values.length
  first : matrix.columnOffsets.head? = some 0
  length_lt : matrix.values.length < UInt64.size
  last : matrix.columnOffsets.getLast? = some (UInt64.ofNat matrix.values.length)
  rows_lt : matrix.rows.toNat < UInt32.size
  column : ∀ col < matrix.cols.toNat, matrix.ColumnValid (UInt32.ofNat matrix.rows.toNat) col

theorem columnBounds_eq_ok_iff {col : ℕ} {bounds : ℕ × ℕ} :
    matrix.columnBounds col = .ok bounds ↔ ∃ start stop, matrix.columnOffsets[col]? = some start ∧
      matrix.columnOffsets[col + 1]? = some stop ∧ bounds = (start.toNat, stop.toNat) := by
  rw [columnBounds]
  simp only [Except.bind_eq_ok_iff, index_eq_ok_iff, Except.ok.injEq, eq_comm (b := bounds)]
  exact ⟨fun ⟨start, hstart, stop, hstop, h⟩ => ⟨start, stop, hstart, hstop, h⟩,
    fun ⟨start, stop, hstart, hstop, h⟩ => ⟨start, hstart, stop, hstop, h⟩⟩

private theorem checkEntry_eq_ok_iff {rows : UInt32} {start i : ℕ} {next : Option UInt32} :
    matrix.checkEntry rows (start + i) (matrix.rowBefore start i) = .ok next ↔
      matrix.EntryValid rows start i ∧ next = matrix.rowBefore start (i + 1) := by
  have hnext : matrix.rowBefore start (i + 1) = matrix.rowIndices[start + i]? := rfl
  rw [checkEntry, EntryValid, hnext]
  simp only [Except.bind_eq_ok_iff, index_eq_ok_iff, require_eq_ok_iff, Except.ok.injEq]
  constructor
  · rintro ⟨row, hrow, -, hlt, -, hprevious, value, hvalue, -, hfinite, rfl⟩
    exact ⟨⟨row, value, hrow, hlt, hprevious, hvalue, hfinite⟩, hrow.symm⟩
  · rintro ⟨⟨row, value, hrow, hlt, hprevious, hvalue, hfinite⟩, rfl⟩
    exact ⟨row, hrow, ⟨⟩, hlt, ⟨⟩, hprevious, value, hvalue, ⟨⟩, hfinite, hrow.symm⟩

private theorem checkColumn_eq_ok_iff {rows : UInt32} {col : ℕ} :
    matrix.checkColumn rows col = .ok ⟨⟩ ↔ matrix.ColumnValid rows col := by
  rw [checkColumn, ColumnValid]
  simp only [Except.bind_eq_ok_iff, columnBounds_eq_ok_iff, require_eq_ok_iff]
  have hloop : ∀ (start n : ℕ) (next : Option UInt32),
      (List.range n).foldlM (fun previous i => matrix.checkEntry rows (start + i) previous) none =
        .ok next ↔ (∀ i < n, matrix.EntryValid rows start i) ∧ next = matrix.rowBefore start n :=
    fun start n next => foldlM_range_eq_ok_iff (matrix.EntryValid rows start)
      (matrix.rowBefore start) fun i _ b => checkEntry_eq_ok_iff
  constructor
  · rintro ⟨_, ⟨start, stop, hstart, hstop, rfl⟩, -, ⟨hle, hbound⟩, next, hrun, -⟩
    exact ⟨start, stop, hstart, hstop, hle, hbound, ((hloop _ _ _).1 hrun).1⟩
  · rintro ⟨start, stop, hstart, hstop, hle, hbound, hentries⟩
    exact ⟨_, ⟨start, stop, hstart, hstop, rfl⟩, ⟨⟩, ⟨hle, hbound⟩, _,
      (hloop _ _ _).2 ⟨hentries, rfl⟩, trivial⟩

/-- What is accepted. -/
theorem validate_eq_ok_iff : matrix.validate = .ok ⟨⟩ ↔ matrix.Valid := by
  rw [validate]
  simp only [Except.bind_eq_ok_iff, require_eq_ok_iff, okOr_eq_ok_iff, checkedAdd_eq_some_iff,
    u64TryFrom_eq_some_iff, u32TryFrom_eq_some_iff, forM_eq_ok_iff, List.mem_range,
    checkColumn_eq_ok_iff]
  constructor
  · rintro ⟨-, ⟨hrows, hcols⟩, -, hthreshold, -, hevidence, _, ⟨rfl, hfit⟩, -, hoffsets, -,
      hindices, -, hfirst, _, ⟨hlt, rfl⟩, -, hlast, _, ⟨hrowsLt, rfl⟩, hcolumns⟩
    exact ⟨hrows, hcols, hthreshold, hevidence, hfit, hoffsets, hindices, hfirst, hlt, hlast,
      hrowsLt, hcolumns⟩
  · intro h
    exact ⟨⟨⟩, ⟨h.rows_ne, h.cols_ne⟩, ⟨⟩, h.threshold, ⟨⟩, h.evidence, _, ⟨rfl, h.cols_lt⟩, ⟨⟩,
      h.length_offsets, ⟨⟩, h.length_indices, ⟨⟩, h.first, _, ⟨h.length_lt, rfl⟩, ⟨⟩, h.last, _,
      ⟨h.rows_lt, rfl⟩, h.column⟩

/-! ### Canonical bytes -/

/-- The matrices store the same, whatever error is reported for them. -/
def SameStored (a b : SparseCscReferenceMatrixV1) : Prop :=
  { a with maxAbsError := b.maxAbsError, meanSquaredError := b.meanSquaredError } = b

theorem canonicalSerializedBytes_eq_ok {bytes : List UInt8}
    (h : matrix.canonicalSerializedBytes = .ok bytes) : matrix.Valid ∧ bytes = matrix.encoded := by
  rw [canonicalSerializedBytes] at h
  simp only [Except.bind_eq_ok_iff, Except.ok.injEq] at h
  obtain ⟨⟨⟩, hvalid, _, -, _, -, _, -, _, -, _, -, rfl⟩ := h
  exact ⟨validate_eq_ok_iff.1 hvalid, rfl⟩

private theorem selfDelimiting_word {α : Type} (width : ℕ) (f : α → ℕ)
    (hlt : ∀ a, f a < 2 ^ (8 * width)) (hinj : ∀ a b, f a = f b → a = b) :
    SelfDelimiting (fun _ : α => True) fun a => leBytes width (f a) :=
  (selfDelimiting_leBytes width).comap f (fun a _ => hlt a) fun a b _ _ => hinj a b

private theorem selfDelimiting_f32 : SelfDelimiting (fun _ : F32 => True) F32.toLeBytes :=
  .of_length 4 (fun _ _ => rfl) fun a b _ _ h => by
    have hwords := congrArg F32.words h
    rw [← List.append_nil a.toLeBytes, ← List.append_nil b.toLeBytes,
      F32.words_toLeBytes_append, F32.words_toLeBytes_append] at hwords
    exact (List.cons.inj hwords).1

/-- The canonical bytes of accepted matrices determine what they store. -/
theorem sameStored_of_canonicalSerializedBytes_eq {a b : SparseCscReferenceMatrixV1}
    {bytes : List UInt8} (ha : a.canonicalSerializedBytes = .ok bytes)
    (hb : b.canonicalSerializedBytes = .ok bytes) : a.SameStored b := by
  obtain ⟨hva, rfl⟩ := canonicalSerializedBytes_eq_ok ha
  obtain ⟨hvb, hbytes⟩ := canonicalSerializedBytes_eq_ok hb
  have hu64 : SelfDelimiting (fun _ : UInt64 => True) fun x => leBytes 8 x.toNat :=
    selfDelimiting_word 8 UInt64.toNat UInt64.toNat_lt fun _ _ => UInt64.toNat_inj.1
  have hu32 : SelfDelimiting (fun _ : UInt32 => True) fun x => leBytes 4 x.toNat :=
    selfDelimiting_word 4 UInt32.toNat UInt32.toNat_lt fun _ _ => UInt32.toNat_inj.1
  simp only [encoded, List.append_assoc, List.append_cancel_left_eq] at hbytes
  obtain ⟨hrows, hbytes⟩ := hu64 trivial trivial hbytes
  obtain ⟨hcols, hbytes⟩ := hu64 trivial trivial hbytes
  obtain ⟨hthreshold, hbytes⟩ := selfDelimiting_f32 trivial trivial hbytes
  obtain ⟨hlength, hbytes⟩ :=
    selfDelimiting_leBytes 8 (hva.length_lt : a.values.length < _)
      (hvb.length_lt : b.values.length < _) hbytes
  obtain ⟨hoffsets, hbytes⟩ := (hu64.flatMap (a.cols.toNat + 1))
    ⟨hva.length_offsets, fun _ _ => trivial⟩
    ⟨by rw [hvb.length_offsets, hcols], fun _ _ => trivial⟩ hbytes
  obtain ⟨hindices, hvalues⟩ := (hu32.flatMap a.values.length)
    ⟨hva.length_indices, fun _ _ => trivial⟩
    ⟨by rw [hvb.length_indices, hlength], fun _ _ => trivial⟩ hbytes
  have hwords := congrArg F32.words hvalues
  rw [F32.words_bytes, F32.words_bytes] at hwords
  cases a
  cases b
  dsimp only at *
  subst hrows hcols hthreshold hoffsets hindices hwords
  rfl

end SparseCscReferenceMatrixV1

end NNIS
