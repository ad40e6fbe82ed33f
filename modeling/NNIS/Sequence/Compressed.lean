import Mathlib.Data.List.Basic
import Mathlib.Data.Nat.Notation

/-!
# Parts behind one another

A table whose rows have different lengths is stored as one list, the rows behind one another, and
the positions at which they start.

## Main definitions

* `offset` — where a part starts.

## Main results

* `getElem?_flatMap_offset` — the elements of a part are read from its start on.
-/

set_option autoImplicit false

namespace NNIS

universe u

variable {α : Type u}

/-- The number of elements of the parts before one. -/
def offset (parts : ℕ → List α) (n : ℕ) : ℕ := ((List.range n).flatMap parts).length

theorem flatMap_range_succ (parts : ℕ → List α) (n : ℕ) :
    (List.range (n + 1)).flatMap parts = (List.range n).flatMap parts ++ parts n := by
  rw [List.range_succ, List.flatMap_append, List.flatMap_singleton]

@[simp] theorem offset_zero (parts : ℕ → List α) : offset parts 0 = 0 := rfl

@[simp] theorem offset_succ (parts : ℕ → List α) (n : ℕ) :
    offset parts (n + 1) = offset parts n + (parts n).length := by
  rw [offset, flatMap_range_succ, List.length_append, offset]

theorem offset_mono (parts : ℕ → List α) {m n : ℕ} (h : m ≤ n) :
    offset parts m ≤ offset parts n := by
  induction h with
  | refl => exact Nat.le_refl _
  | step _ ih =>
    rw [Nat.succ_eq_add_one, offset_succ]
    exact Nat.le_trans ih (Nat.le_add_right _ _)

/-- Parts of bounded length. -/
theorem offset_le {parts : ℕ → List α} {n width : ℕ} (h : ∀ i < n, (parts i).length ≤ width) :
    offset parts n ≤ width * n := by
  induction n with
  | zero => exact Nat.zero_le _
  | succ n ih =>
    rw [offset_succ, Nat.mul_succ]
    exact Nat.add_le_add (ih fun i hi => h i (Nat.lt_succ_of_lt hi)) (h n (Nat.lt_succ_self n))

/-- Parts of one length. -/
theorem offset_eq {parts : ℕ → List α} {width : ℕ} (h : ∀ i, (parts i).length = width) (n : ℕ) :
    offset parts n = width * n := by
  induction n with
  | zero => rfl
  | succ n ih => rw [offset_succ, ih, h, Nat.mul_succ]

/-- The elements of a part are read from its start on. -/
theorem getElem?_flatMap_offset {parts : ℕ → List α} {n j i : ℕ} (hj : j < n)
    (hi : i < (parts j).length) :
    ((List.range n).flatMap parts)[offset parts j + i]? = (parts j)[i]? := by
  induction n with
  | zero => exact absurd hj (Nat.not_lt_zero j)
  | succ n ih =>
    rw [flatMap_range_succ]
    rcases Nat.lt_succ_iff_lt_or_eq.1 hj with hlt | rfl
    · have hbound : offset parts j + i < offset parts n :=
        calc offset parts j + i < offset parts j + (parts j).length := Nat.add_lt_add_left hi _
          _ = offset parts (j + 1) := (offset_succ parts j).symm
          _ ≤ offset parts n := offset_mono parts hlt
      rw [List.getElem?_append_left hbound, ih hlt]
    · have hstart : offset parts j ≤ offset parts j + i := Nat.le_add_right _ _
      rw [List.getElem?_append_right hstart, ← offset, Nat.add_sub_cancel_left]

end NNIS
