import Mathlib.Data.List.Induction
import Mathlib.Data.Nat.Notation

/-!
# Labelled runs

Runs of a labelled transition relation, with the labels of their steps in order. A run is extended
at its end, and may be cut at any of its labels.

## Main definitions

* `LabelledRun`.

## Main results

* `LabelledRun.split`, `LabelledRun.split_at` — cutting runs.
* `LabelledRun.invariant` — what each step preserves holds at the end.
-/

set_option autoImplicit false

namespace NNIS

universe u v

variable {S : Type u} {L : Type v}

/-- A run from one state to another, with the labels of its steps. -/
inductive LabelledRun (step : S → L → S → Prop) (s : S) : List L → S → Prop
  | nil : LabelledRun step s [] s
  | snoc {labels : List L} {t u : S} (label : L) (run : LabelledRun step s labels t)
      (last : step t label u) : LabelledRun step s (labels ++ [label]) u

namespace LabelledRun

variable {step : S → L → S → Prop} {s t u : S} {labels labels' : List L}

/-- The last step of a run. -/
theorem exists_of_concat {label : L} (h : LabelledRun step s (labels ++ [label]) u) :
    ∃ t, LabelledRun step s labels t ∧ step t label u := by
  generalize hlabels : labels ++ [label] = all at h
  cases h with
  | nil => exact absurd hlabels (List.append_ne_nil_of_right_ne_nil _ nofun)
  | snoc label' run last =>
    obtain ⟨rfl, hlabel⟩ := List.append_inj' hlabels rfl
    obtain rfl := List.singleton_inj.1 hlabel
    exact ⟨_, run, last⟩

/-- A run is cut after any of its labels. -/
theorem split (h : LabelledRun step s (labels ++ labels') u) :
    ∃ t, LabelledRun step s labels t ∧ LabelledRun step t labels' u := by
  induction labels' using List.reverseRecOn generalizing u with
  | nil => exact ⟨u, by rwa [List.append_nil] at h, .nil⟩
  | append_singleton rest label ih =>
    rw [← List.append_assoc] at h
    obtain ⟨v, run, last⟩ := exists_of_concat h
    obtain ⟨t, run₁, run₂⟩ := ih run
    exact ⟨t, run₁, .snoc label run₂ last⟩

/-- A run is cut before and after any of its labels. -/
theorem split_at {label : L} (h : LabelledRun step s (labels ++ label :: labels') u) :
    ∃ t v, LabelledRun step s labels t ∧ step t label v ∧ LabelledRun step v labels' u := by
  rw [List.append_cons] at h
  obtain ⟨v, run, rest⟩ := split h
  obtain ⟨t, run', last⟩ := exists_of_concat run
  exact ⟨t, v, run', last, rest⟩

/-- A property of the labels so far and the state that each step preserves holds at the end. -/
theorem invariant (I : List L → S → Prop) (start : I [] s)
    (preserved : ∀ labels t label u, I labels t → step t label u → I (labels ++ [label]) u)
    (h : LabelledRun step s labels t) : I labels t := by
  induction h with
  | nil => exact start
  | snoc label run last ih => exact preserved _ _ label _ ih last

/-- A run from a state without steps is empty. -/
theorem eq_nil_of_stuck (hstuck : ∀ label t, ¬ step s label t) (h : LabelledRun step s labels t) :
    labels = [] ∧ t = s := by
  induction h with
  | nil => exact ⟨rfl, rfl⟩
  | snoc label run last ih =>
    obtain ⟨rfl, rfl⟩ := ih
    exact absurd last (hstuck label _)

end LabelledRun

end NNIS
