import Mathlib.Data.Finset.Fold
import Mathlib.Data.Finset.Range
import Mathlib.Data.Nat.Bitwise

/-!
# The subset transform

A natural number stands for the set of its binary digits. The subset transform of a function sums
it, under a commutative operation, over all subsets of a number. A *stage* of the transform adds to
the value at each number with a given digit the value at the number without that digit; the
transform of all numbers below `2 ^ n` is `n` stages, one for each digit. After `k` stages the value
at a number is the sum over its subsets that agree with it from digit `k` on.

Under an operation that cancels, as the exclusive or of Booleans does, a stage undoes itself, and
since stages commute so does the transform.

## Main definitions

* `SubsetZeta.submasks` — the subsets of a number.
* `SubsetZeta.stage`, `SubsetZeta.transform`.

## Main results

* `SubsetZeta.transform_eq_fold` — the transform is the sum over subsets.
* `SubsetZeta.transform_transform` — a transform under an operation that cancels undoes itself.
-/

set_option autoImplicit false

namespace NNIS

instance commutative_xor : Std.Commutative xor := ⟨Bool.xor_comm⟩

instance associative_xor : Std.Associative xor := ⟨Bool.xor_assoc⟩

instance lawfulIdentity_xor : Std.LawfulIdentity xor false where
  left_id := Bool.false_xor
  right_id := Bool.xor_false

namespace SubsetZeta

universe u

/-! ### Removing a digit -/

theorem testBit_sub_two_pow {m k : ℕ} (h : m.testBit k = true) (i : ℕ) :
    (m - 2 ^ k).testBit i = (m.testBit i && decide (i ≠ k)) := by
  have hlow : m % 2 ^ k < 2 ^ k := Nat.mod_lt m (Nat.two_pow_pos k)
  obtain ⟨q, hq⟩ : ∃ q, m / 2 ^ k = 2 * q + 1 := by
    rw [Nat.testBit_eq_decide_div_mod_eq, decide_eq_true_eq] at h
    exact ⟨m / 2 ^ k / 2, by rw [← h, Nat.div_add_mod]⟩
  have hsplit : m = 2 ^ k * (2 * q + 1) + m % 2 ^ k := by rw [← hq, Nat.div_add_mod]
  have hsub : m - 2 ^ k = 2 ^ k * (2 * q) + m % 2 ^ k := by
    rw [Nat.mul_add_one] at hsplit
    omega
  rw [hsub, Nat.testBit_two_pow_mul_add _ hlow]
  conv_rhs => rw [hsplit, Nat.testBit_two_pow_mul_add _ hlow]
  rcases Nat.lt_trichotomy i k with hlt | rfl | hgt
  · simp only [if_pos hlt, hlt.ne, ne_eq, not_false_eq_true, decide_true, Bool.and_true]
  · simp
  · obtain ⟨j, hj⟩ : ∃ j, i - k = j + 1 := ⟨i - k - 1, by omega⟩
    have hdiv : (2 * q + 1) / 2 = 2 * q / 2 := by omega
    simp only [if_neg (Nat.lt_asymm hgt), hj, Nat.testBit_add_one, hdiv, hgt.ne', ne_eq,
      not_false_eq_true, decide_true, Bool.and_true]

/-! ### Subsets -/

/-- The numbers whose digits are digits of `m`. -/
def submasks (m : ℕ) : Finset ℕ := (Finset.range (m + 1)).filter fun s => s &&& m = s

theorem mem_submasks_iff {s m : ℕ} :
    s ∈ submasks m ↔ ∀ i, s.testBit i = true → m.testBit i = true := by
  have hand : s &&& m = s ↔ ∀ i, s.testBit i = true → m.testBit i = true := by
    rw [Nat.eq_iff_testBit_eq]
    refine forall_congr' fun i => ?_
    rw [Nat.testBit_and]
    cases s.testBit i <;> simp
  rw [submasks, Finset.mem_filter, Finset.mem_range, hand, and_iff_right_iff_imp]
  intro h
  rw [← hand.2 h]
  exact Nat.lt_succ_of_le Nat.and_le_right

/-- The subsets of `m` that have the digits of `m` from digit `k` on. -/
def submasksBelow (k m : ℕ) : Finset ℕ :=
  (submasks m).filter fun s => s / 2 ^ k = m / 2 ^ k

theorem mem_submasksBelow_iff {k s m : ℕ} :
    s ∈ submasksBelow k m ↔
      (∀ i, s.testBit i = true → m.testBit i = true) ∧
        ∀ i, k ≤ i → s.testBit i = m.testBit i := by
  rw [submasksBelow, Finset.mem_filter, mem_submasks_iff, Nat.eq_iff_testBit_eq]
  refine and_congr_right fun _ => ⟨fun h i hi => ?_, fun h i => ?_⟩
  · have hbit := h (i - k)
    rwa [Nat.testBit_div_two_pow, Nat.testBit_div_two_pow, Nat.sub_add_cancel hi] at hbit
  · rw [Nat.testBit_div_two_pow, Nat.testBit_div_two_pow]
    exact h (i + k) (Nat.le_add_left k i)

theorem submasksBelow_zero (m : ℕ) : submasksBelow 0 m = {m} := by
  ext s
  rw [mem_submasksBelow_iff, Finset.mem_singleton]
  constructor
  · exact fun h => Nat.eq_of_testBit_eq fun i => h.2 i (Nat.zero_le i)
  · rintro rfl
    exact ⟨fun _ => id, fun _ _ => rfl⟩

theorem submasksBelow_of_lt {n m : ℕ} (h : m < 2 ^ n) : submasksBelow n m = submasks m := by
  ext s
  rw [mem_submasksBelow_iff, mem_submasks_iff, and_iff_left_iff_imp]
  intro hs i hi
  have hm : m.testBit i = false :=
    Nat.testBit_lt_two_pow (Nat.lt_of_lt_of_le h (Nat.pow_le_pow_right (by decide) hi))
  rw [hm, Bool.eq_false_iff]
  exact fun hsi => Bool.false_ne_true (hm.symm.trans (hs i hsi))

/-- Without the digit `k`, the subsets free in digit `k` are those free below it. -/
theorem submasksBelow_succ_of_not_testBit {k m : ℕ} (h : m.testBit k = false) :
    submasksBelow (k + 1) m = submasksBelow k m := by
  ext s
  rw [mem_submasksBelow_iff, mem_submasksBelow_iff]
  refine and_congr_right fun hs => ⟨fun hagree i hi => ?_, fun hagree i hi => hagree i (by omega)⟩
  rcases Nat.eq_or_lt_of_le hi with rfl | hlt
  · rw [h, Bool.eq_false_iff]
    exact fun hsi => Bool.false_ne_true (h.symm.trans (hs k hsi))
  · exact hagree i hlt

/-- The digit `k` is in a subset or it is not. -/
theorem submasksBelow_succ_of_testBit {k m : ℕ} (h : m.testBit k = true) :
    submasksBelow (k + 1) m = submasksBelow k m ∪ submasksBelow k (m - 2 ^ k) := by
  ext s
  rw [Finset.mem_union, mem_submasksBelow_iff, mem_submasksBelow_iff, mem_submasksBelow_iff]
  simp only [testBit_sub_two_pow h, Bool.and_eq_true, decide_eq_true_eq]
  constructor
  · rintro ⟨hs, hagree⟩
    rcases hsk : s.testBit k with _ | _
    · refine .inr ⟨fun i hi => ⟨hs i hi, ?_⟩, fun i hi => ?_⟩
      · rintro rfl
        exact Bool.false_ne_true (hsk.symm.trans hi)
      · rcases Nat.eq_or_lt_of_le hi with rfl | hlt
        · simp [hsk]
        · simp [hagree i hlt, hlt.ne']
    · refine .inl ⟨hs, fun i hi => ?_⟩
      rcases Nat.eq_or_lt_of_le hi with rfl | hlt
      · rw [hsk, h]
      · exact hagree i hlt
  · rintro (⟨hs, hagree⟩ | ⟨hs, hagree⟩)
    · exact ⟨hs, fun i hi => hagree i (by omega)⟩
    · refine ⟨fun i hi => (hs i hi).1, fun i hi => ?_⟩
      rw [hagree i (by omega), decide_eq_true (by omega : i ≠ k), Bool.and_true]

theorem disjoint_submasksBelow {k m : ℕ} (h : m.testBit k = true) :
    Disjoint (submasksBelow k m) (submasksBelow k (m - 2 ^ k)) := by
  rw [Finset.disjoint_left]
  intro s hs hs'
  have hwith := (mem_submasksBelow_iff.1 hs).2 k (Nat.le_refl k)
  have hwithout := (mem_submasksBelow_iff.1 hs').2 k (Nat.le_refl k)
  rw [testBit_sub_two_pow h, h] at hwithout
  rw [h, hwithout] at hwith
  simp at hwith

/-! ### Stages -/

section

variable {α : Type u} (op : α → α → α)

/-- Add to the value at each number with digit `k` the value at the number without it. -/
def stage (k : ℕ) (f : ℕ → α) (m : ℕ) : α :=
  if m.testBit k then op (f m) (f (m - 2 ^ k)) else f m

/-- The first `n` stages. -/
def transform : ℕ → (ℕ → α) → ℕ → α
  | 0, f => f
  | n + 1, f => stage op n (transform n f)

variable {op}

/-- A stage is determined by the values below a bound that it keeps. -/
theorem stage_congr {k bound : ℕ} {f g : ℕ → α} (h : ∀ m < bound, f m = g m) :
    ∀ m < bound, stage op k f m = stage op k g m := by
  intro m hm
  simp only [stage, h m hm, h (m - 2 ^ k) (Nat.lt_of_le_of_lt (Nat.sub_le ..) hm)]

theorem transform_congr {n bound : ℕ} {f g : ℕ → α} (h : ∀ m < bound, f m = g m) :
    ∀ m < bound, transform op n f m = transform op n g m := by
  induction n with
  | zero => exact h
  | succ n ih => exact stage_congr ih

/-- A map that respects the operations commutes with the transform. -/
theorem map_transform {β : Type u} {op' : β → β → β} (h : α → β)
    (hop : ∀ a b, h (op a b) = op' (h a) (h b)) (n : ℕ) (f : ℕ → α) (m : ℕ) :
    h (transform op n f m) = transform op' n (h ∘ f) m := by
  induction n generalizing m with
  | zero => rfl
  | succ n ih =>
    rw [transform, transform, stage, stage]
    split_ifs
    · rw [hop, ih, ih]
    · exact ih m

variable [Std.Commutative op] [Std.Associative op]

/-- After `k` stages the value at a number is the sum over its subsets free below digit `k`. -/
theorem transform_eq_fold_submasksBelow {e : α} [Std.LawfulIdentity op e] (k : ℕ) (f : ℕ → α)
    (m : ℕ) : transform op k f m = (submasksBelow k m).fold op e f := by
  induction k generalizing m with
  | zero =>
    rw [submasksBelow_zero, Finset.fold_singleton, transform]
    exact (Std.LawfulRightIdentity.right_id _).symm
  | succ k ih =>
    rw [transform, stage]
    split_ifs with h
    · have hidentity : op e e = e := Std.LawfulRightIdentity.right_id e
      rw [ih, ih, submasksBelow_succ_of_testBit h,
        ← Finset.disjUnion_eq_union _ _ (disjoint_submasksBelow h)]
      conv_rhs => rw [← hidentity]
      exact (Finset.fold_disjUnion (disjoint_submasksBelow h)).symm
    · rw [ih, submasksBelow_succ_of_not_testBit (Bool.eq_false_iff.2 h)]

/-- The transform below `2 ^ n` is the sum over all subsets. -/
theorem transform_eq_fold {e : α} [Std.LawfulIdentity op e] {n m : ℕ} (h : m < 2 ^ n)
    (f : ℕ → α) : transform op n f m = (submasks m).fold op e f := by
  rw [transform_eq_fold_submasksBelow (e := e), submasksBelow_of_lt h]

/-! ### Undoing a transform -/

theorem stage_comm {j k : ℕ} (hjk : j ≠ k) (f : ℕ → α) :
    stage op j (stage op k f) = stage op k (stage op j f) := by
  funext m
  have hcomm : ∀ a b, op a b = op b a := Std.Commutative.comm
  have hassoc : ∀ a b c, op (op a b) c = op a (op b c) := Std.Associative.assoc
  simp only [stage]
  rcases hj : m.testBit j with _ | _ <;> rcases hk : m.testBit k with _ | _
  · simp
  · simp [testBit_sub_two_pow hk, hj]
  · simp [testBit_sub_two_pow hj, hk]
  · have hswap : m - 2 ^ j - 2 ^ k = m - 2 ^ k - 2 ^ j := Nat.sub_right_comm ..
    simp only [testBit_sub_two_pow hj, testBit_sub_two_pow hk, hj, hk, hjk, hjk.symm, ne_eq,
      not_false_eq_true, decide_true, Bool.and_true, if_true, hswap, hassoc]
    congr 1
    rw [← hassoc, ← hassoc, hcomm (f (m - 2 ^ k))]

variable (hcancel : ∀ a b, op (op a b) b = a)

include hcancel

omit [Std.Commutative op] [Std.Associative op] in
theorem stage_stage (k : ℕ) (f : ℕ → α) : stage op k (stage op k f) = f := by
  funext m
  simp only [stage]
  split_ifs with h hlow
  · simp [testBit_sub_two_pow h] at hlow
  · exact hcancel _ _
  · rfl

omit hcancel in
theorem stage_transform_comm {k n : ℕ} (h : n ≤ k) (f : ℕ → α) :
    stage op k (transform op n f) = transform op n (stage op k f) := by
  induction n with
  | zero => rfl
  | succ n ih => rw [transform, transform, stage_comm (by omega), ih (by omega)]

/-- Under an operation that cancels, the transform undoes itself. -/
theorem transform_transform (n : ℕ) (f : ℕ → α) :
    transform op n (transform op n f) = f := by
  induction n generalizing f with
  | zero => rfl
  | succ n ih =>
    rw [transform, transform, ← stage_transform_comm (Nat.le_refl n), stage_stage hcancel, ih]

end

end SubsetZeta

end NNIS
