import NNIS.Model.SparseCscReference

/-!
# Round trips of sparse matrices by columns

What the loops of the conversion store, in closed form: for every column the rows whose values
exceed the threshold, in their order, with their values. From it follow that every finite source
is stored, that it is read back pruned, and that storing the pruned matrix stores the same again.

## Main definitions

* `CscSource` — the sources that are converted.
* `cscEntries`, `cscStored` — what is stored of a column and of a matrix.

## Main results

* `sparsifyCsc_eq_ok_iff` — the conversion in closed form.
* `exists_sparsifyCsc_iff` — a source of host values is stored.
* `sparsifyCsc_roundTrip` — it is read back pruned, and the pruned matrix is stored alike.
* `sparseReferences_canonical` — the representation by columns and that by a bitmap.
-/

set_option autoImplicit false

namespace NNIS

open Outcome

/-- The sources that are converted. -/
structure CscSource (dense : List F32) (rows cols : ℕ) (threshold : F32) : Prop where
  rows_ne : rows ≠ 0
  cols_ne : cols ≠ 0
  threshold : validThreshold threshold = true
  fits : rows * cols < wordLimit
  length : dense.length = rows * cols
  rows_lt : rows < UInt32.size
  finite : ∀ value ∈ dense, value.isFinite = true

section Stored

variable (dense : List F32) (rows cols : ℕ) (threshold : F32)

/-- The value in a row and a column. -/
def cscCell (row col : ℕ) : F32 := dense.getD (row * cols + col) (.zero false)

/-- The rows below a bound whose values in a column are stored. -/
def cscKeptRows (n col : ℕ) : List ℕ :=
  (List.range n).filter fun row => exceeds threshold (cscCell dense cols row col)

/-- What is stored of the rows below a bound of a column. -/
def cscEntries (n col : ℕ) : List (UInt32 × F32) :=
  (cscKeptRows dense cols threshold n col).map fun row =>
    (UInt32.ofNat row, cscCell dense cols row col)

/-- The values of the rows below a bound of a column. -/
def cscColumn (n col : ℕ) : List F32 := (List.range n).map fun row => cscCell dense cols row col

/-- What has been stored of the columns before one and of its rows below a bound. -/
def cscState (col n : ℕ) : List UInt32 × List F32 × ReconstructionError :=
  let stored := (List.range col).flatMap (cscEntries dense cols threshold rows) ++
    cscEntries dense cols threshold n col
  (stored.map Prod.fst, stored.map Prod.snd, sparseReport threshold
    ((List.range col).flatMap (cscColumn dense cols rows) ++ cscColumn dense cols n col))

/-- Where the columns start. -/
def cscOffsets (n : ℕ) : List UInt64 :=
  tabulate (n + 1) fun col => UInt64.ofNat (offset (cscEntries dense cols threshold rows) col)

/-- The stored form of a source. -/
def cscStored : SparseCscReferenceMatrixV1 :=
  let (rowIndices, values, report) := cscState dense rows cols threshold cols 0
  { rows := UInt64.ofNat rows
    cols := UInt64.ofNat cols
    threshold := threshold
    columnOffsets := cscOffsets dense rows cols threshold cols
    rowIndices := rowIndices
    values := values
    maxAbsError := report.maxAbsError
    meanSquaredError := report.meanSquaredError (rows * cols) }

end Stored

/-! ### The loops in closed form -/

section Loops

variable {dense : List F32} {rows cols : ℕ} {threshold : F32}

private theorem getElem?_cell (hlength : dense.length = rows * cols) {row col : ℕ}
    (hrow : row < rows) (hcol : col < cols) :
    dense[row * cols + col]? = some (cscCell dense cols row col) := by
  have hlt : row * cols + col < dense.length :=
    calc row * cols + col < row * cols + cols := Nat.add_lt_add_left hcol _
      _ = (row + 1) * cols := (Nat.succ_mul row cols).symm
      _ ≤ rows * cols := Nat.mul_le_mul_right cols hrow
      _ = dense.length := hlength.symm
  rw [cscCell, List.getD_eq_getElem _ _ hlt, List.getElem?_eq_getElem hlt]

private theorem cscEntries_succ (n col : ℕ) :
    cscEntries dense cols threshold (n + 1) col = cscEntries dense cols threshold n col ++
      if exceeds threshold (cscCell dense cols n col) then
        [(UInt32.ofNat n, cscCell dense cols n col)] else [] := by
  rw [cscEntries, cscKeptRows, List.range_succ, List.filter_append, List.map_append,
    List.filter_singleton]
  cases exceeds threshold (cscCell dense cols n col) <;> rfl

private theorem sparsifyCscEntry_eq_ok_iff (hlength : dense.length = rows * cols)
    (hrows : rows < UInt32.size) {col row : ℕ} (hrow : row < rows) (hcol : col < cols)
    {r : List UInt32 × List F32 × ReconstructionError} :
    sparsifyCscEntry dense cols threshold col (cscState dense rows cols threshold col row) row =
        .ok r ↔
      (cscCell dense cols row col).isFinite = true ∧
        r = cscState dense rows cols threshold col (row + 1) := by
  have hindex : u32TryFrom row = some (UInt32.ofNat row) := if_pos (hrow.trans hrows)
  have hcolumn : cscColumn dense cols (row + 1) col =
      cscColumn dense cols row col ++ [cscCell dense cols row col] := by
    rw [cscColumn, List.range_succ, List.map_append]
    rfl
  have hnext : r = cscState dense rows cols threshold col (row + 1) ↔
      (if exceeds threshold (cscCell dense cols row col) then
        (Except.ok ((cscState dense rows cols threshold col row).1 ++ [UInt32.ofNat row],
          (cscState dense rows cols threshold col row).2.1 ++ [cscCell dense cols row col],
          (cscState dense rows cols threshold col row).2.2.observe
            (cscCell dense cols row col) (cscCell dense cols row col)) : Outcome NnisError _)
      else .ok ((cscState dense rows cols threshold col row).1,
        (cscState dense rows cols threshold col row).2.1,
        (cscState dense rows cols threshold col row).2.2.observe
          (cscCell dense cols row col) (.zero false))) = .ok r := by
    simp only [cscState, cscEntries_succ, hcolumn, ← List.append_assoc, sparseReport_concat, prune]
    split_ifs
    · simp only [List.map_append, List.map_cons, List.map_nil, Except.ok.injEq, List.append_assoc,
        eq_comm (b := r)]
    · simp only [List.append_nil, Except.ok.injEq, eq_comm (b := r)]
  rw [hnext, sparsifyCscEntry]
  simp only [Except.bind_eq_ok_iff, index_eq_ok_iff, getElem?_cell hlength hrow hcol,
    Option.some.injEq, exists_eq_left', require_eq_ok_iff, hindex]
  constructor
  · rintro ⟨-, hfinite, h⟩
    exact ⟨hfinite, h⟩
  · rintro ⟨hfinite, h⟩
    exact ⟨⟨⟩, hfinite, h⟩

private theorem cscState_zero_succ (col : ℕ) :
    cscState dense rows cols threshold (col + 1) 0 =
      cscState dense rows cols threshold col rows := by
  have hentries : cscEntries dense cols threshold 0 (col + 1) = [] := rfl
  have hcolumn : cscColumn dense cols 0 (col + 1) = [] := rfl
  simp only [cscState, flatMap_range_succ, hentries, hcolumn, List.append_nil]

private theorem length_cscEntries_le (n col : ℕ) :
    (cscEntries dense cols threshold n col).length ≤ n := by
  rw [cscEntries, List.length_map]
  exact (List.length_filter_le _ _).trans (List.length_range).le

private theorem offset_lt (hfits : rows * cols < wordLimit) {col : ℕ} (hcol : col ≤ cols) :
    offset (cscEntries dense cols threshold rows) col < UInt64.size :=
  calc offset (cscEntries dense cols threshold rows) col ≤ rows * col :=
        offset_le fun _ _ => length_cscEntries_le _ _
    _ ≤ rows * cols := Nat.mul_le_mul_left rows hcol
    _ < UInt64.size := hfits

private theorem cscOffsets_succ (n : ℕ) :
    cscOffsets dense rows cols threshold (n + 1) = cscOffsets dense rows cols threshold n ++
      [UInt64.ofNat (offset (cscEntries dense cols threshold rows) (n + 1))] := by
  rw [cscOffsets, tabulate, List.range_succ, List.map_append]
  rfl

private theorem sparsifyCscColumn_eq_ok_iff (hlength : dense.length = rows * cols)
    (hfits : rows * cols < wordLimit) (hrows : rows < UInt32.size) {col : ℕ} (hcol : col < cols)
    {r : List UInt64 × List UInt32 × List F32 × ReconstructionError} :
    sparsifyCscColumn dense rows cols threshold (cscOffsets dense rows cols threshold col,
        cscState dense rows cols threshold col 0) col = .ok r ↔
      (∀ row < rows, (cscCell dense cols row col).isFinite = true) ∧
        r = (cscOffsets dense rows cols threshold (col + 1),
          cscState dense rows cols threshold (col + 1) 0) := by
  have hloop : ∀ entries, (List.range rows).foldlM (sparsifyCscEntry dense cols threshold col)
      (cscState dense rows cols threshold col 0) = .ok entries ↔
      (∀ row < rows, (cscCell dense cols row col).isFinite = true) ∧
        entries = cscState dense rows cols threshold (col + 1) 0 := by
    intro entries
    rw [cscState_zero_succ]
    exact foldlM_range_eq_ok_iff _ (cscState dense rows cols threshold col) fun row hrow r =>
      sparsifyCscEntry_eq_ok_iff hlength hrows hrow hcol
  have hnnz : u64TryFrom (cscState dense rows cols threshold (col + 1) 0).2.1.length =
      some (UInt64.ofNat (offset (cscEntries dense cols threshold rows) (col + 1))) := by
    have hcount : (cscState dense rows cols threshold (col + 1) 0).2.1.length =
        offset (cscEntries dense cols threshold rows) (col + 1) := by
      rw [cscState, List.length_map, List.length_append]
      rfl
    rw [hcount]
    exact if_pos (offset_lt hfits hcol)
  rw [sparsifyCscColumn]
  simp only [Except.bind_eq_ok_iff, hloop, okOr_eq_ok_iff, Except.ok.injEq, cscOffsets_succ]
  constructor
  · rintro ⟨_, ⟨hfinite, rfl⟩, nnz, hsome, rfl⟩
    rw [hnnz, Option.some.injEq] at hsome
    exact ⟨hfinite, by rw [hsome]⟩
  · rintro ⟨hfinite, rfl⟩
    exact ⟨_, ⟨hfinite, rfl⟩, _, hnnz, rfl⟩

/-- All values are finite when those of all columns are. -/
private theorem finite_iff_cell (hlength : dense.length = rows * cols) :
    (∀ col < cols, ∀ row < rows, (cscCell dense cols row col).isFinite = true) ↔
      ∀ value ∈ dense, value.isFinite = true := by
  constructor
  · intro h value hvalue
    obtain ⟨i, hi, rfl⟩ := List.getElem_of_mem hvalue
    have hcols : 0 < cols := Nat.pos_of_ne_zero fun hzero => by simp [hlength, hzero] at hi
    have hrow : i / cols < rows := by
      rw [Nat.div_lt_iff_lt_mul hcols, ← hlength]
      exact hi
    have hcell := getElem?_cell hlength hrow (Nat.mod_lt i hcols)
    rw [Nat.mul_comm, Nat.div_add_mod, List.getElem?_eq_getElem hi, Option.some.injEq] at hcell
    rw [hcell]
    exact h _ (Nat.mod_lt i hcols) _ hrow
  · intro h col hcol row hrow
    exact h _ (List.mem_of_getElem? (getElem?_cell hlength hrow hcol))

/-- The conversion in closed form. -/
theorem sparsifyCsc_eq_ok_iff {matrix : SparseCscReferenceMatrixV1} :
    sparsifyMatrixCscReferenceV1 dense rows cols threshold = .ok matrix ↔
      CscSource dense rows cols threshold ∧ matrix = cscStored dense rows cols threshold ∧
        matrix.Valid := by
  have hloop : dense.length = rows * cols → rows * cols < wordLimit → rows < UInt32.size →
      ∀ r, (List.range cols).foldlM (sparsifyCscColumn dense rows cols threshold)
          ([0], [], [], ReconstructionError.none) = .ok r ↔
        (∀ value ∈ dense, value.isFinite = true) ∧
          r = (cscOffsets dense rows cols threshold cols,
            cscState dense rows cols threshold cols 0) := by
    intro hlength hfits hrows r
    rw [← finite_iff_cell hlength]
    exact foldlM_range_eq_ok_iff _ (fun col => (cscOffsets dense rows cols threshold col,
      cscState dense rows cols threshold col 0)) fun col hcol r =>
        sparsifyCscColumn_eq_ok_iff hlength hfits hrows hcol
  rw [sparsifyMatrixCscReferenceV1]
  simp only [Except.bind_eq_ok_iff, require_eq_ok_iff, okOr_eq_ok_iff, checkedMul_eq_some_iff,
    u64TryFrom_eq_some_iff, u32TryFrom_eq_some_iff, Except.ok.injEq]
  constructor
  · rintro ⟨-, ⟨hrows, hcols⟩, -, hthreshold, _, ⟨rfl, hfits⟩, -, hlength, _, ⟨-, rfl⟩, _,
      ⟨-, rfl⟩, _, ⟨hlt, -⟩, _, hrun, ⟨⟩, hvalid, rfl⟩
    obtain ⟨hfinite, rfl⟩ := (hloop hlength hfits hlt _).1 hrun
    exact ⟨⟨hrows, hcols, hthreshold, hfits, hlength, hlt, hfinite⟩, rfl,
      SparseCscReferenceMatrixV1.validate_eq_ok_iff.1 hvalid⟩
  · rintro ⟨⟨hrows, hcols, hthreshold, hfits, hlength, hlt, hfinite⟩, rfl, hvalid⟩
    have hcolsLt : cols < UInt64.size :=
      (Nat.le_mul_of_pos_left cols (Nat.pos_of_ne_zero hrows)).trans_lt hfits
    have hrowsLt : rows < UInt64.size := hlt.trans (by decide)
    exact ⟨⟨⟩, ⟨hrows, hcols⟩, ⟨⟩, hthreshold, _, ⟨rfl, hfits⟩, ⟨⟩, hlength, _, ⟨hrowsLt, rfl⟩, _,
      ⟨hcolsLt, rfl⟩, _, ⟨hlt, rfl⟩, _, (hloop hlength hfits hlt _).2 ⟨hfinite, rfl⟩, ⟨⟩,
      SparseCscReferenceMatrixV1.validate_eq_ok_iff.2 hvalid, rfl⟩

end Loops

/-! ### The stored matrix -/

section StoredMatrix

variable {dense : List F32} {rows cols : ℕ} {threshold : F32}

@[simp] theorem cscStored_rowIndices :
    (cscStored dense rows cols threshold).rowIndices =
      ((List.range cols).flatMap (cscEntries dense cols threshold rows)).map Prod.fst :=
  congrArg (List.map Prod.fst) (List.append_nil _)

@[simp] theorem cscStored_values :
    (cscStored dense rows cols threshold).values =
      ((List.range cols).flatMap (cscEntries dense cols threshold rows)).map Prod.snd :=
  congrArg (List.map Prod.snd) (List.append_nil _)

private theorem length_values :
    (cscStored dense rows cols threshold).values.length =
      offset (cscEntries dense cols threshold rows) cols := by
  rw [cscStored_values, List.length_map, offset]

private theorem toNat_offset (hfits : rows * cols < wordLimit) {col : ℕ} (hcol : col ≤ cols) :
    (UInt64.ofNat (offset (cscEntries dense cols threshold rows) col)).toNat =
      offset (cscEntries dense cols threshold rows) col :=
  UInt64.toNat_ofNat_of_lt' (offset_lt hfits hcol)

private theorem columnOffsets_getElem? {col : ℕ} (hcol : col ≤ cols) :
    (cscStored dense rows cols threshold).columnOffsets[col]? =
      some (UInt64.ofNat (offset (cscEntries dense cols threshold rows) col)) :=
  getElem?_tabulate (Nat.lt_succ_of_le hcol) _

/-- The value at a place of a column: that of a row which is kept. -/
private theorem entry_getElem? {col i : ℕ} (hcol : col < cols)
    (hi : i < (cscEntries dense cols threshold rows col).length) :
    ∃ row, (cscKeptRows dense cols threshold rows col)[i]? = some row ∧
      (cscStored dense rows cols threshold).rowIndices[
        offset (cscEntries dense cols threshold rows) col + i]? = some (UInt32.ofNat row) ∧
      (cscStored dense rows cols threshold).values[
        offset (cscEntries dense cols threshold rows) col + i]? =
          some (cscCell dense cols row col) := by
  have hkept : i < (cscKeptRows dense cols threshold rows col).length := by
    rwa [cscEntries, List.length_map] at hi
  refine ⟨_, List.getElem?_eq_getElem hkept, ?_, ?_⟩
  · rw [cscStored_rowIndices, List.getElem?_map, getElem?_flatMap_offset hcol hi, cscEntries,
      List.getElem?_map, List.getElem?_eq_getElem hkept]
    rfl
  · rw [cscStored_values, List.getElem?_map, getElem?_flatMap_offset hcol hi, cscEntries,
      List.getElem?_map, List.getElem?_eq_getElem hkept]
    rfl

private theorem mem_cscKeptRows {n col row : ℕ} :
    row ∈ cscKeptRows dense cols threshold n col ↔
      row < n ∧ exceeds threshold (cscCell dense cols row col) = true := by
  rw [cscKeptRows, List.mem_filter, List.mem_range]

private theorem cscKeptRows_increasing (n col : ℕ) :
    (cscKeptRows dense cols threshold n col).Pairwise (· < ·) :=
  List.pairwise_lt_range.filter _

variable (hsource : CscSource dense rows cols threshold)

include hsource

private theorem entryValid {col i : ℕ} (hcol : col < cols)
    (hi : i < (cscEntries dense cols threshold rows col).length) :
    (cscStored dense rows cols threshold).EntryValid (UInt32.ofNat rows)
      (offset (cscEntries dense cols threshold rows) col) i := by
  have hsmall : ∀ {row : ℕ}, row < rows → (UInt32.ofNat row).toNat = row := fun hrow =>
    UInt32.toNat_ofNat_of_lt' (hrow.trans hsource.rows_lt)
  obtain ⟨row, hkept, hrow, hvalue⟩ := entry_getElem? hcol hi
  have hlt := (mem_cscKeptRows.1 (List.mem_of_getElem? hkept)).1
  refine ⟨_, _, hrow, ?_, fun previous hprevious => ?_, hvalue,
    (finite_iff_cell hsource.length).2 hsource.finite col hcol row hlt⟩
  · rw [UInt32.lt_iff_toNat_lt, hsmall hlt, UInt32.toNat_ofNat_of_lt' hsource.rows_lt]
    exact hlt
  · cases i with
    | zero => exact nomatch hprevious
    | succ i =>
      obtain ⟨before, hkept', hrow', -⟩ := entry_getElem? hcol (Nat.lt_of_succ_lt hi)
      have hprevious : (cscStored dense rows cols threshold).rowIndices[
          offset (cscEntries dense cols threshold rows) col + i]? = some previous := hprevious
      rw [hrow', Option.some.injEq] at hprevious
      obtain ⟨hj, hbefore⟩ := List.getElem?_eq_some_iff.1 hkept'
      obtain ⟨hj', hafter⟩ := List.getElem?_eq_some_iff.1 hkept
      have horder : before < row := hbefore ▸ hafter ▸
        List.pairwise_iff_getElem.1 (cscKeptRows_increasing rows col) i (i + 1) hj hj'
          (Nat.lt_succ_self i)
      rw [← hprevious, UInt32.lt_iff_toNat_lt, hsmall hlt, hsmall (horder.trans hlt)]
      exact horder

private theorem columnValid {col : ℕ} (hcol : col < cols) :
    (cscStored dense rows cols threshold).ColumnValid (UInt32.ofNat rows) col := by
  refine ⟨_, _, columnOffsets_getElem? hcol.le, columnOffsets_getElem? hcol, ?_, ?_, ?_⟩
  · rw [toNat_offset hsource.fits hcol.le, toNat_offset hsource.fits hcol]
    exact offset_mono _ (Nat.le_succ col)
  · rw [toNat_offset hsource.fits hcol, length_values]
    exact offset_mono _ hcol
  · rw [toNat_offset hsource.fits hcol.le, toNat_offset hsource.fits hcol, offset_succ,
      Nat.add_sub_cancel_left]
    exact fun i hi => entryValid hsource hcol hi

/-- The stored form of a source of host values is accepted. -/
theorem cscStored_valid (hhost : dense.length * 4 ≤ isizeMax) :
    (cscStored dense rows cols threshold).Valid := by
  have hbound : rows * cols ≤ 2 ^ 61 := by
    rw [hsource.length] at hhost
    unfold isizeMax at hhost
    omega
  have hcolsLe : cols ≤ rows * cols :=
    Nat.le_mul_of_pos_left cols (Nat.pos_of_ne_zero hsource.rows_ne)
  have hcolsNat : (UInt64.ofNat cols).toNat = cols :=
    UInt64.toNat_ofNat_of_lt' (hcolsLe.trans_lt hsource.fits)
  have hrowsNat : (UInt64.ofNat rows).toNat = rows :=
    UInt64.toNat_ofNat_of_lt' (hsource.rows_lt.trans (by decide))
  have hnonzero : ∀ {n : ℕ}, n ≠ 0 → (UInt64.ofNat n).toNat = n → UInt64.ofNat n ≠ 0 :=
    fun hn hnat hzero => hn (by rw [← hnat, hzero]; rfl)
  refine ⟨hnonzero hsource.rows_ne hrowsNat, hnonzero hsource.cols_ne hcolsNat, hsource.threshold,
    ?_, ?_, ?_, ?_, ?_, ?_, ?_, ?_, ?_⟩
  · -- Every value is observed once, column by column.
    have hvalues : ((List.range cols).flatMap (cscColumn dense cols rows)).length =
        rows * cols :=
      offset_eq (fun col => by rw [cscColumn, List.length_map, List.length_range]) cols
    have hfinite : ∀ value ∈ (List.range cols).flatMap (cscColumn dense cols rows),
        value.isFinite = true := by
      intro value hvalue
      obtain ⟨col, hcol, hvalue⟩ := List.mem_flatMap.1 hvalue
      obtain ⟨row, hrow, rfl⟩ := List.mem_map.1 hvalue
      exact (finite_iff_cell hsource.length).2 hsource.finite col (List.mem_range.1 hcol) row
        (List.mem_range.1 hrow)
    have hreport : (sparseReport threshold _).Bounded _ :=
      sparseReport_bounded hfinite (hvalues ▸ hbound)
    rw [hvalues] at hreport
    have hstate : (cscState dense rows cols threshold cols 0).2.2 = sparseReport threshold
        ((List.range cols).flatMap (cscColumn dense cols rows)) :=
      congrArg (sparseReport threshold) (List.append_nil _)
    rw [← hstate] at hreport
    exact ReconstructionError.validEvidence_of_bounded hreport
      (Nat.mul_pos (Nat.pos_of_ne_zero hsource.rows_ne) (Nat.pos_of_ne_zero hsource.cols_ne))
      hbound
  · change (UInt64.ofNat cols).toNat + 1 < wordLimit
    rw [hcolsNat]
    unfold wordLimit
    omega
  · change (cscOffsets dense rows cols threshold cols).length = (UInt64.ofNat cols).toNat + 1
    rw [hcolsNat, cscOffsets, length_tabulate]
  · rw [cscStored_rowIndices, cscStored_values, List.length_map, List.length_map]
  · rw [List.head?_eq_getElem?, columnOffsets_getElem? (Nat.zero_le cols), offset_zero]
    rfl
  · rw [length_values]
    exact offset_lt hsource.fits (Nat.le_refl cols)
  · rw [List.getLast?_eq_getElem?, length_values]
    change (cscStored dense rows cols threshold).columnOffsets[
      (cscOffsets dense rows cols threshold cols).length - 1]? = _
    rw [cscOffsets, length_tabulate, Nat.add_sub_cancel]
    exact columnOffsets_getElem? (Nat.le_refl cols)
  · change (UInt64.ofNat rows).toNat < UInt32.size
    rw [hrowsNat]
    exact hsource.rows_lt
  · intro col hcol
    change (cscStored dense rows cols threshold).ColumnValid
      (UInt32.ofNat (UInt64.ofNat rows).toNat) col
    rw [hrowsNat]
    exact columnValid hsource (hcolsNat ▸ hcol)

end StoredMatrix

/-! ### Round trips -/

section RoundTrips

variable {dense : List F32} {rows cols : ℕ} {threshold : F32}

/-- The matrix of which the columns before one are complete, and some rows of that column. -/
private def partly (dense : List F32) (cols : ℕ) (threshold : F32) (col : ℕ) (kept : List ℕ)
    (position : ℕ) : F32 :=
  if position % cols < col then prune threshold (dense.getD position (.zero false))
  else if position % cols = col ∧ position / cols ∈ kept then dense.getD position (.zero false)
  else .zero false

private theorem position_div_mod (row : ℕ) {col : ℕ} (hcol : col < cols) :
    (row * cols + col) / cols = row ∧ (row * cols + col) % cols = col := by
  have hpos : 0 < cols := Nat.zero_lt_of_lt hcol
  rw [Nat.mul_comm, Nat.mul_add_div hpos, Nat.div_eq_of_lt hcol, Nat.mul_add_mod,
    Nat.mod_eq_of_lt hcol, Nat.add_zero]
  exact ⟨rfl, rfl⟩

/-- One more value of a column. -/
private theorem update_partly {col i row : ℕ} {kept : List ℕ} (hcol : col < cols)
    (hkept : kept[i]? = some row) :
    Function.update (partly dense cols threshold col (kept.take i)) (row * cols + col)
        (cscCell dense cols row col) = partly dense cols threshold col (kept.take (i + 1)) := by
  have htake : kept.take (i + 1) = kept.take i ++ [row] := by
    rw [List.take_add_one, hkept]
    rfl
  funext position
  obtain ⟨hdiv, hmod⟩ := position_div_mod row hcol
  rw [Function.update_apply, partly, partly, htake]
  simp only [List.mem_append, List.mem_singleton]
  split_ifs with heq hbefore hsame hsame' hother hother'
  · rw [heq, hmod] at hbefore
    exact absurd hbefore (Nat.lt_irrefl col)
  · rw [heq]
    rfl
  · rw [heq, hdiv, hmod] at hsame
    exact absurd ⟨rfl, .inr rfl⟩ hsame
  · rfl
  · rfl
  · exact absurd ⟨hother.1, .inl hother.2⟩ hother'
  · rename_i h
    refine absurd ?_ heq
    rcases h.2 with hmem | hrow
    · exact absurd ⟨h.1, hmem⟩ hother
    · rw [← hrow, ← h.1, Nat.mul_comm, Nat.div_add_mod]
  · rfl

/-- A column whose kept values are written is complete. -/
private theorem partly_complete {col position : ℕ} (hposition : position / cols < rows) :
    partly dense cols threshold col (cscKeptRows dense cols threshold rows col) position =
      partly dense cols threshold (col + 1) [] position := by
  rw [partly, partly]
  rcases Nat.lt_trichotomy (position % cols) col with hlt | heq | hgt
  · rw [if_pos hlt, if_pos (Nat.lt_succ_of_lt hlt)]
  · have hcell : cscCell dense cols (position / cols) col = dense.getD position (.zero false) := by
      rw [cscCell, ← heq, Nat.mul_comm, Nat.div_add_mod]
    rw [if_neg (Nat.not_lt.2 heq.ge), if_pos (Nat.lt_succ_of_le heq.le), prune]
    simp only [mem_cscKeptRows, heq, hposition, hcell, true_and]
  · rw [if_neg (Nat.not_lt.2 hgt.le), if_neg (fun h => Nat.ne_of_gt hgt h.1),
      if_neg (Nat.not_lt.2 hgt), if_neg (fun h => absurd h.2 List.not_mem_nil)]

private theorem cols_cscStored (hsource : CscSource dense rows cols threshold) :
    (cscStored dense rows cols threshold).cols.toNat = cols :=
  UInt64.toNat_ofNat_of_lt' ((Nat.le_mul_of_pos_left cols
    (Nat.pos_of_ne_zero hsource.rows_ne)).trans_lt hsource.fits)

/-- One value of a column is read back. -/
private theorem densifyCscEntry_stored (hsource : CscSource dense rows cols threshold) {col i : ℕ}
    (hcol : col < cols) (hi : i < (cscEntries dense cols threshold rows col).length) :
    densifyCscEntry (cscStored dense rows cols threshold) col
        (offset (cscEntries dense cols threshold rows) col + i)
        (tabulate (rows * cols) (partly dense cols threshold col
          ((cscKeptRows dense cols threshold rows col).take i))) =
      .ok (tabulate (rows * cols) (partly dense cols threshold col
        ((cscKeptRows dense cols threshold rows col).take (i + 1)))) := by
  obtain ⟨row, hkept, hrow, hvalue⟩ := entry_getElem? hcol hi
  have hlt := (mem_cscKeptRows.1 (List.mem_of_getElem? hkept)).1
  have hposition : row * cols + col < rows * cols :=
    calc row * cols + col < row * cols + cols := Nat.add_lt_add_left hcol _
      _ = (row + 1) * cols := (Nat.succ_mul row cols).symm
      _ ≤ rows * cols := Nat.mul_le_mul_right cols hlt
  rw [densifyCscEntry, index_eq_ok_iff.2 hrow, Except.ok_bind, index_eq_ok_iff.2 hvalue,
    Except.ok_bind, UInt32.toNat_ofNat_of_lt' (hlt.trans hsource.rows_lt), cols_cscStored hsource,
    modifyAt_tabulate hposition, update_partly hcol hkept]

/-- One column is read back. -/
private theorem densifyCscColumn_stored (hsource : CscSource dense rows cols threshold) {col : ℕ}
    (hcol : col < cols) :
    densifyCscColumn (cscStored dense rows cols threshold)
        (tabulate (rows * cols) (partly dense cols threshold col [])) col =
      .ok (tabulate (rows * cols) (partly dense cols threshold (col + 1) [])) := by
  have hbounds : (cscStored dense rows cols threshold).columnBounds col =
      .ok (offset (cscEntries dense cols threshold rows) col,
        offset (cscEntries dense cols threshold rows) (col + 1)) := by
    refine SparseCscReferenceMatrixV1.columnBounds_eq_ok_iff.2
      ⟨_, _, columnOffsets_getElem? hcol.le, columnOffsets_getElem? hcol, ?_⟩
    rw [toNat_offset hsource.fits hcol.le, toNat_offset hsource.fits hcol]
  have hlength : (cscEntries dense cols threshold rows col).length =
      (cscKeptRows dense cols threshold rows col).length := by
    rw [cscEntries, List.length_map]
  rw [densifyCscColumn, hbounds, Except.ok_bind]
  dsimp only
  rw [offset_succ, Nat.add_sub_cancel_left]
  -- After a number of rounds the rows that were kept first are written.
  obtain ⟨_, hrun, rfl⟩ := foldlM_range_total
    (fun i l => l = tabulate (rows * cols) (partly dense cols threshold col
      ((cscKeptRows dense cols threshold rows col).take i)))
    (fun i hi l hl => ⟨_, hl ▸ densifyCscEntry_stored hsource hcol hi, rfl⟩) rfl
  refine hrun.trans (congrArg _ (tabulate_congr fun position hposition => ?_))
  rw [hlength, List.take_length]
  refine partly_complete ?_
  rwa [Nat.div_lt_iff_lt_mul (Nat.zero_lt_of_lt hcol)]

/-- The stored form of a source is read back pruned. -/
theorem densifyCsc_stored (hsource : CscSource dense rows cols threshold)
    (hhost : dense.length * 4 ≤ isizeMax) :
    densifyMatrixCscReferenceV1 (cscStored dense rows cols threshold) =
      .ok (dense.map (prune threshold)) := by
  have hrows : (cscStored dense rows cols threshold).rows.toNat = rows :=
    UInt64.toNat_ofNat_of_lt' (hsource.rows_lt.trans (by decide))
  rw [densifyMatrixCscReferenceV1,
    SparseCscReferenceMatrixV1.validate_eq_ok_iff.2 (cscStored_valid hsource hhost),
    Except.ok_bind, hrows, cols_cscStored hsource,
    okOr_eq_ok_iff.2 (checkedMul_of_lt hsource.fits), Except.ok_bind,
    if_pos (hsource.length ▸ hhost), Except.ok_bind, replicate_eq_tabulate]
  have hempty : (fun _ => .zero false) = partly dense cols threshold 0 [] := by
    funext position
    rw [partly, if_neg (Nat.not_lt_zero _), if_neg fun h => absurd h.2 List.not_mem_nil]
  obtain ⟨_, hrun, rfl⟩ := foldlM_range_total
    (fun col l => l = tabulate (rows * cols) (partly dense cols threshold col []))
    (fun col hcol l hl => ⟨_, hl ▸ densifyCscColumn_stored hsource hcol, rfl⟩)
    (hempty ▸ rfl : tabulate (rows * cols) (fun _ => .zero false) = _)
  refine hrun.trans (congrArg _ ?_)
  have hmap : dense.map (prune threshold) = tabulate (rows * cols) fun position =>
      prune threshold (dense.getD position (.zero false)) := by
    rw [← hsource.length]
    exact (congrArg (List.map (prune threshold)) (tabulate_getD dense (.zero false)).symm).trans
      (List.map_map ..)
  rw [hmap]
  refine tabulate_congr fun position _ => if_pos (Nat.mod_lt _ ?_)
  exact Nat.pos_of_ne_zero hsource.cols_ne

/-! ### The pruned matrix -/

private theorem cscCell_map (row col : ℕ) :
    cscCell (dense.map (prune threshold)) cols row col =
      prune threshold (cscCell dense cols row col) := by
  rw [cscCell, cscCell, ← prune_zero threshold, List.getD_map, prune_zero]

private theorem cscEntries_map (hthreshold : validThreshold threshold = true) :
    cscEntries (dense.map (prune threshold)) cols threshold = cscEntries dense cols threshold := by
  funext n col
  have hkept : cscKeptRows (dense.map (prune threshold)) cols threshold n col =
      cscKeptRows dense cols threshold n col := by
    refine List.filter_congr fun row _ => ?_
    rw [cscCell_map, exceeds_prune hthreshold]
  rw [cscEntries, cscEntries, hkept]
  refine List.map_congr_left fun row hrow => ?_
  rw [cscCell_map, prune, if_pos (mem_cscKeptRows.1 hrow).2]

theorem CscSource.map_prune (hsource : CscSource dense rows cols threshold) :
    CscSource (dense.map (prune threshold)) rows cols threshold where
  rows_ne := hsource.rows_ne
  cols_ne := hsource.cols_ne
  threshold := hsource.threshold
  fits := hsource.fits
  length := by rw [List.length_map, hsource.length]
  rows_lt := hsource.rows_lt
  finite := by
    intro value hvalue
    obtain ⟨source, hmem, rfl⟩ := List.mem_map.1 hvalue
    exact isFinite_prune (hsource.finite source hmem)

/-- The pruned matrix is stored as the matrix itself. -/
theorem sameStored_cscStored_map (hthreshold : validThreshold threshold = true) :
    (cscStored (dense.map (prune threshold)) rows cols threshold).SameStored
      (cscStored dense rows cols threshold) := by
  simp only [SparseCscReferenceMatrixV1.SameStored, cscStored, cscState, cscOffsets,
    cscEntries_map hthreshold]

/-! ### Both representations -/

/-- Which sources of host values are stored by columns. -/
theorem exists_sparsifyCsc_iff (hhost : dense.length * 4 ≤ isizeMax) :
    (∃ matrix, sparsifyMatrixCscReferenceV1 dense rows cols threshold = .ok matrix) ↔
      CscSource dense rows cols threshold := by
  constructor
  · rintro ⟨matrix, h⟩
    exact (sparsifyCsc_eq_ok_iff.1 h).1
  · intro hsource
    exact ⟨_, sparsifyCsc_eq_ok_iff.2 ⟨hsource, rfl, cscStored_valid hsource hhost⟩⟩

/-- What has been stored by columns is accepted, is read back pruned, and what has been read back
is stored alike. -/
theorem sparsifyCsc_roundTrip {matrix : SparseCscReferenceMatrixV1}
    (hhost : dense.length * 4 ≤ isizeMax)
    (h : sparsifyMatrixCscReferenceV1 dense rows cols threshold = .ok matrix) :
    matrix.validate = .ok ⟨⟩ ∧
      densifyMatrixCscReferenceV1 matrix = .ok (dense.map (prune threshold)) ∧
      ∃ again, sparsifyMatrixCscReferenceV1 (dense.map (prune threshold)) rows cols threshold =
        .ok again ∧ again.SameStored matrix := by
  obtain ⟨hsource, rfl, hvalid⟩ := sparsifyCsc_eq_ok_iff.1 h
  refine ⟨SparseCscReferenceMatrixV1.validate_eq_ok_iff.2 hvalid,
    densifyCsc_stored hsource hhost, _, sparsifyCsc_eq_ok_iff.2 ⟨hsource.map_prune, rfl, ?_⟩,
    sameStored_cscStored_map hsource.threshold⟩
  exact cscStored_valid hsource.map_prune (by rwa [List.length_map])

end RoundTrips

/-- Exactly the finite host values of a fitting shape and an accepted threshold are stored, in
either representation. What is stored is accepted and read back pruned, what has been read back is
stored alike, and the canonical bytes of accepted matrices determine what they store. -/
theorem sparseReferences_canonical :
    (∀ (dense : List F32) (rows cols : ℕ) (threshold : F32), dense.length * 4 ≤ isizeMax →
      ((∃ matrix, sparsifyMatrixCscReferenceV1 dense rows cols threshold = .ok matrix) ↔
        CscSource dense rows cols threshold) ∧
      ∀ matrix, sparsifyMatrixCscReferenceV1 dense rows cols threshold = .ok matrix →
        matrix.validate = .ok ⟨⟩ ∧
        densifyMatrixCscReferenceV1 matrix = .ok (dense.map (prune threshold)) ∧
        ∃ again, sparsifyMatrixCscReferenceV1 (dense.map (prune threshold)) rows cols threshold =
          .ok again ∧ again.SameStored matrix) ∧
    (∀ (values : List F32) (threshold : F32), values.length * 4 ≤ isizeMax →
      ((∃ tensor, sparsifyMagnitudeReferenceV1 values threshold = .ok tensor) ↔
        values ≠ [] ∧ validThreshold threshold = true ∧
          ∀ value ∈ values, value.isFinite = true) ∧
      ∀ tensor, sparsifyMagnitudeReferenceV1 values threshold = .ok tensor →
        validateSparseTensor tensor = .ok ⟨⟩ ∧
        densifySparseReferenceV1 tensor = .ok (values.map (prune threshold)) ∧
        ∃ again, sparsifyMagnitudeReferenceV1 (values.map (prune threshold)) threshold =
          .ok again ∧ again.SameStored tensor) ∧
    ∀ (a b : SparseCscReferenceMatrixV1) (bytes : List UInt8),
      a.canonicalSerializedBytes = .ok bytes → b.canonicalSerializedBytes = .ok bytes →
        a.SameStored b := by
  refine ⟨fun dense rows cols threshold hhost => ⟨exists_sparsifyCsc_iff hhost,
    fun matrix h => sparsifyCsc_roundTrip hhost h⟩, fun values threshold hhost =>
    ⟨exists_sparsify_iff hhost, fun tensor h =>
      ⟨(sparsify_eq_ok h).1, densify_sparsify h, resparsify h hhost⟩⟩, fun a b bytes ha hb => ?_⟩
  exact SparseCscReferenceMatrixV1.sameStored_of_canonicalSerializedBytes_eq ha hb

/-- One value that is pruned is a source, and so is the zero it is read back as. -/
private theorem cscSource_one : CscSource [.ofBits 0x3F800000] 1 1 (.ofBits 0x40000000) where
  rows_ne := by decide
  cols_ne := by decide
  threshold := by decide
  fits := by decide
  length := rfl
  rows_lt := by decide
  finite := by decide

/-- The reported error is not part of the canonical bytes, and is not that of the pruned matrix:
two accepted empty matrices, and one value that is pruned. -/
theorem exists_canonicalSerializedBytes_eq_ne :
    (∃ (a b : SparseCscReferenceMatrixV1) (bytes : List UInt8),
      a.validate = .ok ⟨⟩ ∧ b.validate = .ok ⟨⟩ ∧ a.canonicalSerializedBytes = .ok bytes ∧
        b.canonicalSerializedBytes = .ok bytes ∧ a ≠ b) ∧
      ∃ (dense pruned : List F32) (rows cols : ℕ) (threshold : F32)
        (matrix again : SparseCscReferenceMatrixV1),
        sparsifyMatrixCscReferenceV1 dense rows cols threshold = .ok matrix ∧
          densifyMatrixCscReferenceV1 matrix = .ok pruned ∧
          sparsifyMatrixCscReferenceV1 pruned rows cols threshold = .ok again ∧ again ≠ matrix := by
  refine ⟨⟨⟨1, 1, .zero false, [0, 0], [], [], .zero false, .zero false⟩,
    ⟨1, 1, .zero false, [0, 0], [], [], .ofBits 0x3F800000, .zero false⟩, _, rfl, rfl, rfl, rfl,
    fun h => ?_⟩, ⟨_, _, _, _, _, _, _,
      sparsifyCsc_eq_ok_iff.2 ⟨cscSource_one, rfl, cscStored_valid cscSource_one (by decide)⟩,
      densifyCsc_stored cscSource_one (by decide), sparsifyCsc_eq_ok_iff.2
        ⟨cscSource_one.map_prune, rfl, cscStored_valid cscSource_one.map_prune (by decide)⟩,
      fun h => ?_⟩⟩
  · exact absurd (congrArg SparseCscReferenceMatrixV1.maxAbsError h) (by decide)
  · exact absurd (congrArg SparseCscReferenceMatrixV1.maxAbsError h) (by decide +kernel)

end NNIS
