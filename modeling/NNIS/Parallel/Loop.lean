import Mathlib.Algebra.Group.Nat.Defs
import Mathlib.Tactic.SplitIfs

/-!
# Loops of a block

The indices that a thread of a block visits in a loop whose step is the width of the block, and the
strides of a reduction that halves the number of its threads in every round.

## Main definitions

* `strided`, `halvings`.

## Main results

* `mem_strided`, `nodup_strided` — each thread visits the indices of its residue, each once.
* `foldl_strided` — a loop over tiles is one over their elements.
* `le_of_mem_halvings` — the strides do not exceed the first one.
-/

set_option autoImplicit false

namespace NNIS

/-- The indices of `for (i = first; i < stop; i += step)`. -/
def strided (first stop step : ℕ) : List ℕ :=
  List.range' first ((stop - first + step - 1) / step) step

/-- The strides of `for (; stride > 0; stride >>= 1)`, of which there are at most `rounds`. -/
def halvingsIn : ℕ → ℕ → List ℕ
  | 0, _ => []
  | rounds + 1, stride => if stride = 0 then [] else stride :: halvingsIn rounds (stride / 2)

/-- The strides of `for (; stride > 0; stride >>= 1)`. -/
def halvings (stride : ℕ) : List ℕ := halvingsIn stride stride

theorem mem_strided {first stop step i : ℕ} (hfirst : first < step) :
    i ∈ strided first stop step ↔ i < stop ∧ i % step = first := by
  have hstep : 0 < step := Nat.zero_lt_of_lt hfirst
  rw [strided, List.mem_range']
  constructor
  · rintro ⟨k, hk, rfl⟩
    refine ⟨?_, by rw [Nat.add_mul_mod_self_left, Nat.mod_eq_of_lt hfirst]⟩
    have hle : (k + 1) * step ≤ stop - first + step - 1 := (Nat.le_div_iff_mul_le hstep).1 hk
    rw [Nat.succ_mul, Nat.mul_comm k] at hle
    omega
  · rintro ⟨hlt, rfl⟩
    have hdiv := Nat.mod_add_div i step
    refine ⟨i / step, (Nat.le_div_iff_mul_le hstep).2 ?_, hdiv.symm⟩
    rw [Nat.succ_mul, Nat.mul_comm (i / step)]
    omega

theorem nodup_strided {first stop step : ℕ} (hstep : 0 < step) : (strided first stop step).Nodup :=
  List.nodup_range' step hstep

theorem lt_of_mem_strided {first stop step i : ℕ} (hstep : 0 < step)
    (h : i ∈ strided first stop step) : i < stop := by
  rw [strided, List.mem_range'] at h
  obtain ⟨k, hk, rfl⟩ := h
  have hle : (k + 1) * step ≤ stop - first + step - 1 := (Nat.le_div_iff_mul_le hstep).1 hk
  rw [Nat.succ_mul, Nat.mul_comm k] at hle
  omega

/-- A row-major index determines its row and its column. -/
theorem rowMajor_injective {n i i' j j' : ℕ} (hj : j < n) (hj' : j' < n)
    (h : i * n + j = i' * n + j') : i = i' ∧ j = j' := by
  have hn : 0 < n := Nat.zero_lt_of_lt hj
  have hdiv := congrArg (· / n) h
  have hmod := congrArg (· % n) h
  simp only [Nat.mul_comm _ n, Nat.mul_add_div hn, Nat.mul_add_mod, Nat.div_eq_of_lt hj,
    Nat.div_eq_of_lt hj', Nat.mod_eq_of_lt hj, Nat.mod_eq_of_lt hj', Nat.add_zero] at hdiv hmod
  exact ⟨hdiv, hmod⟩

theorem strided_of_le {first stop step : ℕ} (h : stop ≤ first) (hstep : 0 < step) :
    strided first stop step = [] := by
  have hzero : (stop - first + step - 1) / step = 0 := Nat.div_eq_of_lt (by omega)
  rw [strided, hzero, List.range'_zero]

/-- A loop over tiles is one over the elements of all of them. -/
theorem foldl_strided {α : Type} (g : α → ℕ → α) (stop step : ℕ) (a : α) :
    (strided 0 stop step).foldl
      (fun a tile => (List.range step).foldl (fun a d => g a (tile + d)) a)
        a = (List.range ((stop + step - 1) / step * step)).foldl g a := by
  rw [strided, Nat.sub_zero]
  generalize (stop + step - 1) / step = tiles
  induction tiles with
  | zero => simp
  | succ tiles ih =>
    rw [List.range'_concat, List.foldl_append, ih, Nat.succ_mul, List.range_add, List.foldl_append,
      List.foldl_map]
    simp [Nat.mul_comm step]

/-- Elements without an effect at the end of a loop. -/
theorem foldl_range_of_le {α : Type} {g : α → ℕ → α} {stop n : ℕ} (h : stop ≤ n)
    (hg : ∀ a e, stop ≤ e → g a e = a) (a : α) :
    (List.range n).foldl g a = (List.range stop).foldl g a := by
  obtain ⟨rest, rfl⟩ := Nat.exists_eq_add_of_le h
  induction rest with
  | zero => rfl
  | succ rest ih =>
    rw [← Nat.add_assoc, List.range_succ, List.foldl_append, ih (Nat.le_add_right _ _)]
    exact hg _ _ (Nat.le_add_right _ _)

theorem strided_eq_cons {first stop step i : ℕ} {l : List ℕ}
    (h : strided first stop step = i :: l) : i = first := by
  rw [strided] at h
  exact (List.range'_eq_cons_iff.1 h).1.symm

theorem le_of_mem_halvingsIn {rounds stride s : ℕ} (h : s ∈ halvingsIn rounds stride) :
    s ≤ stride := by
  induction rounds generalizing stride with
  | zero => exact nomatch h
  | succ rounds ih =>
    rw [halvingsIn] at h
    split_ifs at h
    · exact nomatch h
    · rcases List.mem_cons.1 h with rfl | h
      · exact Nat.le_refl _
      · exact Nat.le_trans (ih h) (Nat.div_le_self _ 2)

theorem le_of_mem_halvings {stride s : ℕ} (h : s ∈ halvings stride) : s ≤ stride :=
  le_of_mem_halvingsIn h

end NNIS
