import NNIS.Memory.Region
import NNIS.Semantics.Outcome

/-!
# Checked slices

Slicing and writing a list as a program does: a range outside the list is a panic.

## Main definitions

* `Outcome.slice`, `Outcome.copyAt`, `Outcome.modifyAt`.

## Main results

* `Outcome.slice_eq_ok_iff`, `Outcome.copyAt_eq_ok_iff`, `Outcome.modifyAt_eq_ok_iff`.
-/

set_option autoImplicit false

namespace NNIS

universe u

namespace Outcome

variable {ε α : Type u}

/-- The elements of a range. -/
def slice (l : List α) (start stop : ℕ) : Outcome ε (List α) :=
  if start ≤ stop ∧ stop ≤ l.length then .ok (region l start (stop - start)) else .error .panic

/-- Overwrite the elements from an offset on. -/
def copyAt (l : List α) (offset : ℕ) (source : List α) : Outcome ε (List α) :=
  if offset + source.length ≤ l.length then .ok (writeRegion l offset source) else .error .panic

/-- Replace one element. -/
def modifyAt (l : List α) (i : ℕ) (f : α → α) : Outcome ε (List α) :=
  if i < l.length then .ok (l.modify i f) else .error .panic

theorem slice_eq_ok_iff {l r : List α} {start stop : ℕ} :
    (slice l start stop : Outcome ε (List α)) = .ok r ↔
      start ≤ stop ∧ stop ≤ l.length ∧ r = region l start (stop - start) := by
  unfold slice
  split_ifs with h
  · exact ⟨fun he => ⟨h.1, h.2, (Except.ok.inj he).symm⟩, fun he => congrArg _ he.2.2.symm⟩
  · exact ⟨nofun, fun he => absurd ⟨he.1, he.2.1⟩ h⟩

theorem copyAt_eq_ok_iff {l r source : List α} {offset : ℕ} :
    (copyAt l offset source : Outcome ε (List α)) = .ok r ↔
      offset + source.length ≤ l.length ∧ r = writeRegion l offset source := by
  unfold copyAt
  split_ifs with h
  · exact ⟨fun he => ⟨h, (Except.ok.inj he).symm⟩, fun he => congrArg _ he.2.symm⟩
  · exact ⟨nofun, fun he => absurd he.1 h⟩

theorem modifyAt_eq_ok_iff {l r : List α} {i : ℕ} {f : α → α} :
    (modifyAt l i f : Outcome ε (List α)) = .ok r ↔ i < l.length ∧ r = l.modify i f := by
  unfold modifyAt
  split_ifs with h
  · exact ⟨fun he => ⟨h, (Except.ok.inj he).symm⟩, fun he => congrArg _ he.2.symm⟩
  · exact ⟨nofun, fun he => absurd he.1 h⟩

end Outcome

end NNIS
