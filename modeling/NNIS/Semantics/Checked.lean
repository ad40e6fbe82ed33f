import Mathlib.Algebra.Group.Nat.Defs
import Mathlib.Tactic.SplitIfs

/-!
# Checked machine arithmetic

Natural numbers stand for machine integers; an operation that can leave the range is checked and
has no result outside it. Sizes and counters are 64 bits wide.

## Main definitions

* `isizeMax`.
* `checkedAdd`, `checkedSub`, `checkedMul` — 64-bit arithmetic.

## Main results

* `mapM_eq_ok` — a list of computations that all succeed.
-/

set_option autoImplicit false

namespace NNIS

/-- The number of values of a 64-bit integer. -/
abbrev wordLimit : ℕ := 2 ^ 64

/-- The largest value of a signed pointer-sized integer on a 64-bit host. -/
def isizeMax : ℕ := 2 ^ 63 - 1

/-- The sum, if it fits. -/
def checkedAdd (a b : ℕ) : Option ℕ := if a + b < wordLimit then some (a + b) else none

/-- The product, if it fits. -/
def checkedMul (a b : ℕ) : Option ℕ := if a * b < wordLimit then some (a * b) else none

/-- The difference, if it is not negative. -/
def checkedSub (a b : ℕ) : Option ℕ := if b ≤ a then some (a - b) else none

theorem checkedSub_eq_some_iff {a b c : ℕ} : checkedSub a b = some c ↔ b ≤ a ∧ a - b = c := by
  unfold checkedSub
  split_ifs with h
  · simp only [Option.some.injEq]
    exact ⟨fun he => ⟨h, he⟩, fun he => he.2⟩
  · exact ⟨nofun, fun he => absurd he.1 h⟩

theorem checkedSub_of_le {a b : ℕ} (h : b ≤ a) : checkedSub a b = some (a - b) := if_pos h

theorem checkedAdd_eq_some_iff {a b c : ℕ} :
    checkedAdd a b = some c ↔ a + b = c ∧ c < wordLimit := by
  unfold checkedAdd
  split_ifs with h
  · simp only [Option.some.injEq]
    exact ⟨fun he => ⟨he, he ▸ h⟩, fun he => he.1⟩
  · simp only [false_iff, not_and]
    intro he hc
    exact h (he ▸ hc)

theorem checkedMul_eq_some_iff {a b c : ℕ} :
    checkedMul a b = some c ↔ a * b = c ∧ c < wordLimit := by
  unfold checkedMul
  split_ifs with h
  · simp only [Option.some.injEq]
    exact ⟨fun he => ⟨he, he ▸ h⟩, fun he => he.1⟩
  · simp only [false_iff, not_and]
    intro he hc
    exact h (he ▸ hc)

theorem checkedAdd_of_lt {a b : ℕ} (h : a + b < wordLimit) : checkedAdd a b = some (a + b) :=
  if_pos h

theorem checkedMul_of_lt {a b : ℕ} (h : a * b < wordLimit) : checkedMul a b = some (a * b) :=
  if_pos h

/-- A list of computations that all succeed gives the list of their results. -/
theorem mapM_eq_ok {ε α β : Type} {f : α → Except ε β} {g : α → β} {l : List α}
    (h : ∀ x ∈ l, f x = .ok (g x)) : l.mapM f = .ok (l.map g) := by
  induction l with
  | nil => rfl
  | cons x l ih =>
    rw [List.mapM_cons, h x List.mem_cons_self, ih fun y hy => h y (List.mem_cons_of_mem x hy)]
    rfl

end NNIS
