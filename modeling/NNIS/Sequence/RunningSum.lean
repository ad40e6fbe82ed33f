import Mathlib.Algebra.BigOperators.Group.List.Basic
import Mathlib.Algebra.Order.BigOperators.Group.List
import Mathlib.Algebra.Order.Field.Basic
import Mathlib.Data.Nat.Notation
import Mathlib.Order.Defs.LinearOrder
import Mathlib.Order.Lattice

/-!
# Running sums of weights

The position at which the running sum of a list of weights first meets a condition: the choice of
an element with a probability that its weight says, and the shortest beginning of a list that has
a share of the whole weight. The condition is stated for any addition; over an ordered field the
running sums are the sums of the beginnings.

A counter that follows a list and a maximum that follows the counter: the maximum is the greatest
value that the counter had, before the first element and after each one.

## Main definitions

* `firstReaching` — the first position after which the running sum meets a condition.
* `IsPeak` — the greatest value over the prefixes.

## Main results

* `firstReaching_eq_some_iff`, `firstReaching_eq_none_iff`.
* `exists_firstReaching_lt` — a number below the whole weight lies in the range of one element.
* `exists_firstReaching_ge` — a share of the whole weight is reached by a shortest beginning.
* `IsPeak.concat` — one more element.
-/

set_option autoImplicit false

namespace NNIS

universe u v

section Generic

variable {W : Type u} (add : W → W → W) (reached : W → Bool)

/-- The first position after which the running sum meets a condition. -/
def firstReaching : (sum : W) → List W → Option ℕ
  | _, [] => none
  | sum, weight :: rest =>
    if reached (add sum weight) then some 0
    else (firstReaching (add sum weight) rest).map (· + 1)

variable {add reached}

theorem firstReaching_eq_some_iff {sum : W} {weights : List W} {i : ℕ} :
    firstReaching add reached sum weights = some i ↔ i < weights.length ∧
      reached ((weights.take (i + 1)).foldl add sum) = true ∧
        ∀ j < i, reached ((weights.take (j + 1)).foldl add sum) = false := by
  induction weights generalizing sum i with
  | nil => exact ⟨nofun, fun h => absurd h.1 (Nat.not_lt_zero i)⟩
  | cons weight rest ih =>
    rw [firstReaching]
    by_cases hnow : reached (add sum weight) = true
    · rw [if_pos hnow, Option.some.injEq]
      constructor
      · rintro rfl
        exact ⟨Nat.succ_pos _, hnow, fun j hj => absurd hj (Nat.not_lt_zero j)⟩
      · rintro ⟨-, -, hbefore⟩
        by_contra hne
        have hfirst := hbefore 0 (Nat.pos_of_ne_zero (Ne.symm hne))
        exact Bool.false_ne_true (hfirst.symm.trans hnow)
    · rw [if_neg hnow, Option.map_eq_some_iff]
      constructor
      · rintro ⟨i, hi, rfl⟩
        obtain ⟨hlt, hreached, hbefore⟩ := ih.1 hi
        refine ⟨Nat.succ_lt_succ hlt, hreached, fun j hj => ?_⟩
        cases j with
        | zero => exact Bool.not_eq_true _ ▸ hnow
        | succ j => exact hbefore j (Nat.lt_of_succ_lt_succ hj)
      · rintro ⟨hlt, hreached, hbefore⟩
        cases i with
        | zero => exact absurd hreached hnow
        | succ i =>
          exact ⟨i, ih.2 ⟨Nat.lt_of_succ_lt_succ hlt, hreached, fun j hj =>
            hbefore (j + 1) (Nat.succ_lt_succ hj)⟩, rfl⟩

theorem firstReaching_eq_none_iff {sum : W} {weights : List W} :
    firstReaching add reached sum weights = none ↔
      ∀ i < weights.length, reached ((weights.take (i + 1)).foldl add sum) = false := by
  induction weights generalizing sum with
  | nil => exact ⟨fun _ i hi => absurd hi (Nat.not_lt_zero i), fun _ => rfl⟩
  | cons weight rest ih =>
    rw [firstReaching]
    by_cases hnow : reached (add sum weight) = true
    · rw [if_pos hnow]
      exact ⟨nofun, fun h => absurd hnow (by rw [Bool.not_eq_true]; exact h 0 (Nat.succ_pos _))⟩
    · rw [if_neg hnow, Option.map_eq_none_iff, ih]
      refine ⟨fun h i hi => ?_, fun h i hi => h (i + 1) (Nat.succ_lt_succ hi)⟩
      cases i with
      | zero => exact Bool.not_eq_true _ ▸ hnow
      | succ i => exact h i (Nat.lt_of_succ_lt_succ hi)

end Generic

/-! ### Exact sums -/

section Exact

private theorem foldl_eq_sum {K : Type u} [AddCommMonoid K] (l : List K) :
    l.foldl (· + ·) 0 = l.sum := by
  rw [List.sum_eq_foldl]

variable {K : Type u} [Field K] [LinearOrder K] {weights : List K}

/-- A share of the whole weight is reached by a shortest beginning, which is not empty. -/
theorem exists_firstReaching_ge {threshold : K} (hne : weights ≠ [])
    (hle : threshold ≤ weights.sum) :
    ∃ i, i < weights.length ∧
      firstReaching (· + ·) (fun sum => decide (threshold ≤ sum)) 0 weights = some i ∧
        threshold ≤ (weights.take (i + 1)).sum ∧
          ∀ j < i, (weights.take (j + 1)).sum < threshold := by
  cases hfirst : firstReaching (· + ·) (fun sum => decide (threshold ≤ sum)) 0 weights with
  | none =>
    rw [firstReaching_eq_none_iff] at hfirst
    have hpos := List.length_pos_of_ne_nil hne
    have hlast := hfirst (weights.length - 1) (Nat.sub_lt hpos Nat.one_pos)
    rw [Nat.sub_add_cancel hpos, List.take_length, foldl_eq_sum,
      decide_eq_false_iff_not] at hlast
    exact absurd hle hlast
  | some i =>
    obtain ⟨hi, hreached, hbefore⟩ := firstReaching_eq_some_iff.1 hfirst
    rw [foldl_eq_sum, decide_eq_true_iff] at hreached
    refine ⟨i, hi, rfl, hreached, fun j hj => ?_⟩
    have h := hbefore j hj
    rw [foldl_eq_sum, decide_eq_false_iff_not] at h
    exact not_le.1 h

/-- A number below the whole weight lies in the range of one element. -/
theorem exists_firstReaching_lt {draw : K} (hdraw : 0 ≤ draw) (hlt : draw < weights.sum) :
    ∃ i, i < weights.length ∧
      firstReaching (· + ·) (fun sum => decide (draw < sum)) 0 weights = some i ∧
        (weights.take i).sum ≤ draw ∧ draw < (weights.take (i + 1)).sum := by
  cases hfirst : firstReaching (· + ·) (fun sum => decide (draw < sum)) 0 weights with
  | none =>
    rw [firstReaching_eq_none_iff] at hfirst
    have hne : weights ≠ [] := by
      rintro rfl
      exact absurd hlt (not_lt.2 hdraw)
    have hpos := List.length_pos_of_ne_nil hne
    have hlast := hfirst (weights.length - 1) (Nat.sub_lt hpos Nat.one_pos)
    rw [Nat.sub_add_cancel hpos, List.take_length, foldl_eq_sum,
      decide_eq_false_iff_not] at hlast
    exact absurd hlt hlast
  | some i =>
    obtain ⟨hi, hreached, hbefore⟩ := firstReaching_eq_some_iff.1 hfirst
    rw [foldl_eq_sum, decide_eq_true_iff] at hreached
    refine ⟨i, hi, rfl, ?_, hreached⟩
    cases i with
    | zero => exact hdraw
    | succ i =>
      have h := hbefore i (Nat.lt_succ_self i)
      rw [foldl_eq_sum, decide_eq_false_iff_not] at h
      exact not_lt.1 h

/-- An element in whose range a number lies has a positive weight. -/
theorem pos_of_sum_take_lt [IsStrictOrderedRing K] {i : ℕ} (hi : i < weights.length)
    (hlt : (weights.take i).sum < (weights.take (i + 1)).sum) : 0 < weights[i] := by
  rw [List.take_add_one, List.getElem?_eq_getElem hi, List.sum_append] at hlt
  simpa using hlt

end Exact

variable {α : Type u} {β : Type v} [LinearOrder β] {f : List α → β}

/-- The greatest value over the prefixes of a list. -/
structure IsPeak (f : List α → β) (l : List α) (peak : β) : Prop where
  exists_eq : ∃ k ≤ l.length, f (l.take k) = peak
  le_peak : ∀ k ≤ l.length, f (l.take k) ≤ peak

theorem isPeak_nil : IsPeak f [] (f []) where
  exists_eq := ⟨0, Nat.le_refl 0, rfl⟩
  le_peak k _ := by rw [List.take_nil]

/-- One more element has one more prefix, the whole list. -/
theorem IsPeak.concat {l : List α} {peak : β} (h : IsPeak f l peak) (a : α) :
    IsPeak f (l ++ [a]) (max peak (f (l ++ [a]))) := by
  have hlength : (l ++ [a]).length = l.length + 1 := List.length_append
  have hwhole : (l ++ [a]).take (l.length + 1) = l ++ [a] :=
    List.take_of_length_le (Nat.le_of_eq hlength)
  have hpart : ∀ k ≤ l.length, (l ++ [a]).take k = l.take k := fun k hk =>
    List.take_append_of_le_length hk
  constructor
  · rcases le_total peak (f (l ++ [a])) with hle | hle
    · rw [max_eq_right hle]
      exact ⟨l.length + 1, Nat.le_of_eq hlength.symm, by rw [hwhole]⟩
    · rw [max_eq_left hle]
      obtain ⟨k, hk, hpeak⟩ := h.exists_eq
      exact ⟨k, by omega, by rw [hpart k hk, hpeak]⟩
  · intro k hk
    rcases Nat.lt_or_ge l.length k with hlt | hle
    · obtain rfl : k = l.length + 1 := by omega
      rw [hwhole]
      exact le_max_right _ _
    · rw [hpart k hle]
      exact (h.le_peak k hle).trans (le_max_left _ _)

end NNIS
