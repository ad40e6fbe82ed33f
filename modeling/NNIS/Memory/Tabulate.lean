import Mathlib.Logic.Function.Basic
import NNIS.Memory.Slice

/-!
# Tabulated lists

A list of a fixed length read as a function of the index. Replacing an element is an update of the
function, so a loop that writes a list one element at a time is described by the function that it
has reached.

## Main definitions

* `tabulate` — the list of the values of a function.

## Main results

* `tabulate_getD` — every list is tabulated.
* `Outcome.index_tabulate`, `Outcome.modifyAt_tabulate` — reading and replacing an element.
* `Outcome.foldlM_rows` — a loop over the rows of a table that treats each row by itself.
-/

set_option autoImplicit false

namespace NNIS

universe u

variable {α : Type u}

/-- The values of a function below `n`. -/
def tabulate (n : ℕ) (f : ℕ → α) : List α := (List.range n).map f

@[simp] theorem length_tabulate (n : ℕ) (f : ℕ → α) : (tabulate n f).length = n := by
  rw [tabulate, List.length_map, List.length_range]

theorem getElem?_tabulate {n i : ℕ} (h : i < n) (f : ℕ → α) : (tabulate n f)[i]? = some (f i) := by
  rw [tabulate, List.getElem?_map, List.getElem?_range h, Option.map_some]

theorem getD_tabulate {n i : ℕ} (h : i < n) (f : ℕ → α) (d : α) :
    (tabulate n f).getD i d = f i := by
  rw [List.getD_eq_getElem?_getD, getElem?_tabulate h, Option.getD_some]

theorem tabulate_congr {n : ℕ} {f g : ℕ → α} (h : ∀ i < n, f i = g i) :
    tabulate n f = tabulate n g :=
  List.map_congr_left fun i hi => h i (List.mem_range.1 hi)

theorem tabulate_getD (l : List α) (d : α) : tabulate l.length (l.getD · d) = l := by
  refine List.ext_getElem? fun i => ?_
  rcases Nat.lt_or_ge i l.length with h | h
  · rw [getElem?_tabulate h, List.getD_eq_getElem?_getD, List.getElem?_eq_getElem h,
      Option.getD_some]
  · rw [List.getElem?_eq_none (by rwa [length_tabulate]), List.getElem?_eq_none h]

theorem replicate_eq_tabulate (n : ℕ) (a : α) : List.replicate n a = tabulate n fun _ => a := by
  rw [tabulate, List.map_const', List.length_range]

namespace Outcome

variable {ε : Type u}

theorem index_tabulate {n i : ℕ} (h : i < n) (f : ℕ → α) :
    (index (tabulate n f) i : Outcome ε α) = .ok (f i) :=
  index_eq_ok_iff.2 (getElem?_tabulate h f)

theorem modifyAt_tabulate {n i : ℕ} (h : i < n) (f : ℕ → α) (g : α → α) :
    (modifyAt (tabulate n f) i g : Outcome ε (List α)) =
      .ok (tabulate n (Function.update f i (g (f i)))) := by
  refine modifyAt_eq_ok_iff.2 ⟨by rwa [length_tabulate], List.ext_getElem? fun j => ?_⟩
  rw [List.getElem?_modify]
  rcases Nat.lt_or_ge j n with hj | hj
  · rw [getElem?_tabulate hj, getElem?_tabulate hj]
    rcases eq_or_ne i j with rfl | hne
    · simp only [if_true, Function.update_self]
      rfl
    · simp only [if_neg hne, Function.update_of_ne hne.symm]
      rfl
  · rw [List.getElem?_eq_none (by rwa [length_tabulate]),
      List.getElem?_eq_none (by rwa [length_tabulate])]
    rfl

/-- A loop over the rows of a table each round of which only touches its own row. -/
theorem foldlM_rows {rows cols : ℕ} (steps : ℕ) (P : ℕ → ℕ → ℕ → α)
    (body : ℕ → List α → ℕ → Outcome ε (List α)) {row : List α → ℕ → Outcome ε (List α)}
    (hrow : ∀ a < rows, ∀ l, row l a = (List.range steps).foldlM (body a) l)
    (hbody : ∀ a < rows, ∀ n < steps, ∀ f : ℕ → α, (∀ j < cols, f (a * cols + j) = P a n j) →
      ∃ g, body a (tabulate (rows * cols) f) n = .ok (tabulate (rows * cols) g) ∧
        (∀ j < cols, g (a * cols + j) = P a (n + 1) j) ∧ ∀ i, i / cols ≠ a → g i = f i)
    {f : ℕ → α} (hstart : ∀ a < rows, ∀ j < cols, f (a * cols + j) = P a 0 j) :
    (List.range rows).foldlM row (tabulate (rows * cols) f) =
      .ok (tabulate (rows * cols) fun i => P (i / cols) steps (i % cols)) := by
  have hdiv {a j : ℕ} (hj : j < cols) : (a * cols + j) / cols = a := by
    rw [Nat.mul_comm, Nat.mul_add_div (by omega), Nat.div_eq_of_lt hj, Nat.add_zero]
  -- Rows before `a` are complete, and the rows from `a` on are untouched.
  have hrows : ∀ a < rows, ∀ l, (∃ g, l = tabulate (rows * cols) g ∧
      (∀ b < a, ∀ j < cols, g (b * cols + j) = P b steps j) ∧
      ∀ b, a ≤ b → b < rows → ∀ j < cols, g (b * cols + j) = P b 0 j) →
      ∃ l', row l a = .ok l' ∧ ∃ g, l' = tabulate (rows * cols) g ∧
        (∀ b < a + 1, ∀ j < cols, g (b * cols + j) = P b steps j) ∧
        ∀ b, a + 1 ≤ b → b < rows → ∀ j < cols, g (b * cols + j) = P b 0 j := by
    rintro a ha _ ⟨g, rfl, hdone, hleft⟩
    rw [hrow a ha]
    obtain ⟨l', hl', g', hg', hrow', hother⟩ := foldlM_range_total
      (fun n l => ∃ g', l = tabulate (rows * cols) g' ∧
        (∀ j < cols, g' (a * cols + j) = P a n j) ∧ ∀ i, i / cols ≠ a → g' i = g i)
      (fun n hn l hl => by
        obtain ⟨g', rfl, hg', hother⟩ := hl
        obtain ⟨g'', hrun, hg'', hother'⟩ := hbody a ha n hn g' hg'
        exact ⟨_, hrun, g'', rfl, hg'', fun i hi => (hother' i hi).trans (hother i hi)⟩)
      ⟨g, rfl, hleft a (Nat.le_refl a) ha, fun _ _ => rfl⟩
    refine ⟨l', hl', g', hg', fun b hb j hj => ?_, fun b hb hlt j hj => ?_⟩
    · rcases Nat.lt_succ_iff_lt_or_eq.1 hb with hlt | rfl
      · rw [hother _ (by rw [hdiv hj]; omega), hdone b hlt j hj]
      · exact hrow' j hj
    · rw [hother _ (by rw [hdiv hj]; omega), hleft b (by omega) hlt j hj]
  obtain ⟨l, hl, g, rfl, hdone, -⟩ := foldlM_range_total _ hrows
    ⟨f, rfl, fun b hb => absurd hb (Nat.not_lt_zero b), fun b _ => hstart b⟩
  rw [hl]
  refine congrArg _ (tabulate_congr fun i hi => ?_)
  have hcols : 0 < cols := Nat.pos_of_ne_zero fun h => by simp [h] at hi
  have hlt : i / cols < rows := Nat.div_lt_of_lt_mul (by rwa [Nat.mul_comm])
  rw [← hdone _ hlt _ (Nat.mod_lt i hcols), Nat.mul_comm, Nat.div_add_mod]

end Outcome

end NNIS
