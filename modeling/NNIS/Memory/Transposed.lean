import NNIS.Memory.Tabulate
import NNIS.Semantics.Checked

/-!
# Transposed matrices

A matrix stored row by row is transposed by a loop over its rows and columns that writes each
element at its place in the other order.

## Main definitions

* `transposed` — the transposed matrix.
* `Outcome.transposeLoop` — the loop.

## Main results

* `transposed_transposed` — transposing is an involution.
* `map_transposed` — it commutes with a function of the elements.
* `Outcome.transposeLoop_eq` — the loop does not panic and computes the transposed matrix.
-/

set_option autoImplicit false

namespace NNIS

universe u v

variable {α : Type u} {β : Type v}

/-- The matrix of `cols` rows whose columns are the rows of a matrix. -/
def transposed (rows cols : ℕ) (values : List α) (d : α) : List α :=
  tabulate (rows * cols) fun i => values.getD (i % rows * cols + i / rows) d

@[simp] theorem length_transposed (rows cols : ℕ) (values : List α) (d : α) :
    (transposed rows cols values d).length = rows * cols := length_tabulate _ _

private theorem place_lt {rows cols row col : ℕ} (hrow : row < rows) (hcol : col < cols) :
    col * rows + row < rows * cols := by
  calc col * rows + row < col * rows + rows := Nat.add_lt_add_left hrow _
    _ = (col + 1) * rows := (Nat.succ_mul col rows).symm
    _ ≤ cols * rows := Nat.mul_le_mul_right _ hcol
    _ = rows * cols := Nat.mul_comm _ _

private theorem place_mod {rows row : ℕ} (hrow : row < rows) (col : ℕ) :
    (col * rows + row) % rows = row := by
  rw [Nat.mul_comm, Nat.mul_add_mod, Nat.mod_eq_of_lt hrow]

private theorem place_div {rows row : ℕ} (hrow : row < rows) (col : ℕ) :
    (col * rows + row) / rows = col := by
  rw [Nat.mul_comm, Nat.mul_add_div (Nat.zero_lt_of_lt hrow), Nat.div_eq_of_lt hrow, Nat.add_zero]

/-- The element of a row and a column. -/
theorem getD_transposed {rows cols row col : ℕ} (hrow : row < rows) (hcol : col < cols)
    (values : List α) (d : α) :
    (transposed rows cols values d).getD (col * rows + row) d =
      values.getD (row * cols + col) d := by
  rw [transposed, getD_tabulate (place_lt hrow hcol), place_mod hrow, place_div hrow]

/-- Transposing is an involution. -/
theorem transposed_transposed {rows cols : ℕ} {values : List α}
    (h : values.length = rows * cols) (d : α) :
    transposed cols rows (transposed rows cols values d) d = values := by
  have hvalues := tabulate_getD values d
  rw [h] at hvalues
  rw [transposed, Nat.mul_comm cols rows]
  refine (tabulate_congr fun i hi => ?_).trans hvalues
  have hcols : 0 < cols := Nat.pos_of_ne_zero fun h0 => by simp [h0] at hi
  have hrow : i / cols < rows := Nat.div_lt_of_lt_mul (by rwa [Nat.mul_comm])
  rw [getD_transposed hrow (Nat.mod_lt i hcols), Nat.mul_comm, Nat.div_add_mod]

/-- Transposing commutes with a function of the elements. -/
theorem map_transposed (f : α → β) (rows cols : ℕ) (values : List α) (d : α) :
    (transposed rows cols values d).map f = transposed rows cols (values.map f) (f d) := by
  rw [transposed, tabulate, List.map_map]
  refine List.map_congr_left fun i _ => ?_
  rw [Function.comp_apply, List.getD_eq_getElem?_getD, List.getD_eq_getElem?_getD,
    List.getElem?_map, Option.getD_map]

namespace Outcome

variable {ε : Type u}

/-- Write the elements of a row at their places in the other order. -/
def transposeRow (values : List α) (rows cols : ℕ) (output : List α) (row : ℕ) :
    Outcome ε (List α) :=
  (List.range cols).foldlM (fun output col => do
    let value ← index values (row * cols + col)
    modifyAt output (col * rows + row) fun _ => value) output

/-- Write every element of a matrix at its place in the other order. -/
def transposeLoop (values : List α) (rows cols : ℕ) (output : List α) : Outcome ε (List α) :=
  (List.range rows).foldlM (transposeRow values rows cols) output

/-- The output of the loop when the rows before `row` and `col` elements of that row are written. -/
private def partly (values : List α) (rows cols : ℕ) (d : α) (row col i : ℕ) : α :=
  if i % rows < row ∨ i % rows = row ∧ i / rows < col then
    values.getD (i % rows * cols + i / rows) d
  else d

private theorem partly_write {values : List α} {rows cols row col : ℕ} (d : α) (hrow : row < rows) :
    Function.update (partly values rows cols d row col) (col * rows + row)
      (values.getD (row * cols + col) d) = partly values rows cols d row (col + 1) := by
  funext i
  by_cases hi : i = col * rows + row
  · subst hi
    rw [Function.update_self, partly, place_mod hrow, place_div hrow,
      if_pos (Or.inr ⟨rfl, Nat.lt_succ_self col⟩)]
  · rw [Function.update_of_ne hi, partly, partly]
    refine if_congr (or_congr_right (and_congr_right fun hmod => ?_)) rfl rfl
    have hne : i / rows ≠ col := by
      rintro rfl
      exact hi (by rw [← hmod, Nat.mul_comm, Nat.div_add_mod])
    omega

private theorem partly_row {values : List α} {rows cols : ℕ} (d : α) (row : ℕ) {i : ℕ}
    (hi : i < rows * cols) :
    partly values rows cols d row cols i = partly values rows cols d (row + 1) 0 i := by
  have hdiv : i / rows < cols := Nat.div_lt_of_lt_mul hi
  rw [partly, partly]
  generalize i / rows = q at hdiv
  generalize i % rows = r
  exact if_congr (by omega) rfl rfl

private theorem transposeRow_eq {values : List α} {rows cols row : ℕ}
    (h : values.length = rows * cols) (d : α) (hrow : row < rows) :
    (transposeRow values rows cols (tabulate (rows * cols) (partly values rows cols d row 0)) row :
      Outcome ε (List α)) =
        .ok (tabulate (rows * cols) (partly values rows cols d (row + 1) 0)) := by
  have hstep : ∀ col < cols, ∀ output : List α,
      output = tabulate (rows * cols) (partly values rows cols d row col) →
        ∃ output', (do
          let value ← index values (row * cols + col)
          modifyAt output (col * rows + row) fun _ => value) =
            (.ok output' : Outcome ε (List α)) ∧
          output' = tabulate (rows * cols) (partly values rows cols d row (col + 1)) := by
    rintro col hcol _ rfl
    have hread : row * cols + col < values.length := by
      rw [h, Nat.mul_comm rows cols]
      exact place_lt hcol hrow
    refine ⟨_, ?_, rfl⟩
    rw [index_of_lt hread, Except.ok_bind, modifyAt_tabulate (place_lt hrow hcol),
      ← partly_write d hrow, List.getD_eq_getElem?_getD, List.getElem?_eq_getElem hread,
      Option.getD_some]
  obtain ⟨output, hrun, rfl⟩ := foldlM_range_total _ hstep rfl
  rw [transposeRow, hrun]
  exact congrArg _ (tabulate_congr fun i hi => partly_row d row hi)

/-- The loop does not panic, and writes the transposed matrix over any output of its size. -/
theorem transposeLoop_eq {values : List α} {rows cols : ℕ} (h : values.length = rows * cols)
    (d : α) :
    (transposeLoop values rows cols (List.replicate (rows * cols) d) : Outcome ε (List α)) =
      .ok (transposed rows cols values d) := by
  have hstart : List.replicate (rows * cols) d =
      tabulate (rows * cols) (partly values rows cols d 0 0) := by
    rw [replicate_eq_tabulate]
    refine tabulate_congr fun i _ => (if_neg ?_).symm
    rintro (hlt | ⟨-, hlt⟩) <;> exact Nat.not_lt_zero _ hlt
  obtain ⟨output, hrun, rfl⟩ := foldlM_range_total
    (fun row output => output = tabulate (rows * cols) (partly values rows cols d row 0))
    (fun row hrow output houtput => ⟨_, houtput ▸ transposeRow_eq h d hrow, rfl⟩) hstart
  rw [transposeLoop, hrun, transposed]
  refine congrArg _ (tabulate_congr fun i hi => if_pos (Or.inl (Nat.mod_lt i ?_)))
  exact Nat.pos_of_ne_zero fun h0 => by simp [h0] at hi

end Outcome

end NNIS
