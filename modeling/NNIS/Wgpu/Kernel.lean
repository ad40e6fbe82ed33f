import NNIS.Memory.Region
import NNIS.Memory.Tabulate

/-!
# Kernels of the WGPU backend

A kernel is run once for each invocation of a dispatch, in an order that the device chooses. Index
arithmetic of a kernel has 32 bits: where it would wrap, and where an index is out of range, the
model panics.

## Main definitions

* `wordLimit32`, `kernelU32` — arithmetic of 32 bits.
* `Scheduler`, `dispatch` — the invocations of a dispatch, in any order.

## Main results

* `dispatch_writes`, `dispatch_blocks` — a dispatch each invocation of which writes its own element,
  or its own block of elements.
-/

set_option autoImplicit false

namespace NNIS

/-- The number of values of a 32-bit integer. -/
abbrev wordLimit32 : ℕ := 2 ^ 32

section

variable {ε α : Type}

/-- An index of a kernel, which has 32 bits. -/
def kernelU32 (value : ℕ) : Outcome ε ℕ :=
  if value < wordLimit32 then .ok value else .error .panic

theorem kernelU32_of_lt {value : ℕ} (h : value < wordLimit32) :
    (kernelU32 value : Outcome ε ℕ) = .ok value := if_pos h

/-- The order in which the device runs the invocations of each dispatch. -/
structure Scheduler where
  order : ℕ → ℕ → List ℕ
  perm : ∀ dispatch invocations, (order dispatch invocations).Perm (List.range invocations)

/-- Run the invocations one after the other. -/
def Scheduler.ascending : Scheduler where
  order _ invocations := List.range invocations
  perm _ _ := .refl _

/-- Run the invocations of a dispatch in an order. -/
def dispatch (kernel : List α → ℕ → Outcome ε (List α)) (order : List ℕ) (output : List α) :
    Outcome ε (List α) :=
  order.foldlM kernel output

/-- Where each invocation below a bound writes its own element and the others nothing, the order of
the invocations does not matter. -/
theorem dispatch_writes {kernel : List α → ℕ → Outcome ε (List α)} {n : ℕ} (v : ℕ → α)
    (hkernel : ∀ output : List α, output.length = n → ∀ i,
      kernel output i = .ok (if i < n then output.set i (v i) else output))
    {count : ℕ} (hcount : n ≤ count) {order : List ℕ} (horder : order.Perm (List.range count))
    {output : List α} (hlength : output.length = n) :
    dispatch kernel order output = .ok (tabulate n v) := by
  have hrun : ∀ (order : List ℕ) (output : List α), output.length = n →
      ∃ output', order.foldlM kernel output = .ok output' ∧ output'.length = n ∧
        ∀ i < n, output'[i]? = if i ∈ order then some (v i) else output[i]? := by
    intro order
    induction order with
    | nil => exact fun output hlength => ⟨output, rfl, hlength, fun i _ => rfl⟩
    | cons j order ih =>
      intro output hlength
      set next := if j < n then output.set j (v j) else output with hnext
      have hnextLength : next.length = n := by
        rw [hnext]
        split_ifs
        · rwa [List.length_set]
        · exact hlength
      obtain ⟨output', hrun, hlength', hget⟩ := ih next hnextLength
      refine ⟨output', ?_, hlength', fun i hi => ?_⟩
      · rw [List.foldlM_cons, hkernel output hlength]
        exact hrun
      · rw [hget i hi]
        by_cases hmem : i ∈ order
        · rw [if_pos hmem, if_pos (List.mem_cons_of_mem j hmem)]
        · rw [if_neg hmem]
          rcases eq_or_ne i j with rfl | hne
          · rw [hnext, if_pos hi, if_pos List.mem_cons_self,
              List.getElem?_set_self (by rwa [hlength])]
          · rw [if_neg (by simp [hne, hmem]), hnext]
            split_ifs
            · exact List.getElem?_set_ne hne.symm
            · rfl
  obtain ⟨output', hrun, hlength', hget⟩ := hrun order output hlength
  rw [dispatch, hrun]
  refine congrArg _ (List.ext_getElem? fun i => ?_)
  rcases Nat.lt_or_ge i n with hi | hi
  · rw [hget i hi, if_pos (horder.mem_iff.2 (List.mem_range.2 (by omega))), getElem?_tabulate hi]
  · rw [List.getElem?_eq_none (by omega), List.getElem?_eq_none (by rwa [length_tabulate])]

/-- Where each invocation below a bound writes its own block and the others nothing, the order of
the invocations does not matter. -/
theorem dispatch_blocks {kernel : List α → ℕ → Outcome ε (List α)} {n size : ℕ} (v : ℕ → List α)
    (hv : ∀ i < n, (v i).length = size)
    (hkernel : ∀ output : List α, output.length = n * size → ∀ i,
      kernel output i = .ok (if i < n then writeRegion output (i * size) (v i) else output))
    {count : ℕ} (hcount : n ≤ count) {order : List ℕ} (horder : order.Perm (List.range count))
    {output : List α} (hlength : output.length = n * size) :
    dispatch kernel order output = .ok ((List.range n).flatMap v) := by
  have hrun : ∀ (order : List ℕ) (output : List α), output.length = n * size →
      ∃ output', order.foldlM kernel output = .ok output' ∧ output'.length = n * size ∧
        ∀ i < n, region output' (i * size) size =
          if i ∈ order then v i else region output (i * size) size := by
    intro order
    induction order with
    | nil => exact fun output hlength => ⟨output, rfl, hlength, fun i _ => rfl⟩
    | cons j order ih =>
      intro output hlength
      set next := if j < n then writeRegion output (j * size) (v j) else output with hnext
      have hnextLength : next.length = n * size := by
        rw [hnext]
        split_ifs
        · rwa [length_writeRegion]
        · exact hlength
      obtain ⟨output', hrun, hlength', hget⟩ := ih next hnextLength
      refine ⟨output', ?_, hlength', fun i hi => ?_⟩
      · rw [List.foldlM_cons, hkernel output hlength]
        exact hrun
      · rw [hget i hi]
        by_cases hmem : i ∈ order
        · rw [if_pos hmem, if_pos (List.mem_cons_of_mem j hmem)]
        · rw [if_neg hmem]
          rcases eq_or_ne i j with rfl | hne
          · rw [hnext, if_pos hi, if_pos List.mem_cons_self,
              region_writeRegion_block (hv i hi) hlength hi, if_pos rfl]
          · rw [if_neg (by simp [hne, hmem]), hnext]
            split_ifs with hj
            · rw [region_writeRegion_block (hv j hj) hlength hj, if_neg hne]
            · rfl
  obtain ⟨output', hrun, hlength', hget⟩ := hrun order output hlength
  rw [dispatch, hrun]
  refine congrArg _ ?_
  have hblocks := flatMap_region output' 0 size n
  simp only [Nat.zero_add] at hblocks
  rw [← hlength', region_zero] at hblocks
  rw [← hblocks]
  refine List.flatMap_congr fun i hi => ?_
  have hi' := List.mem_range.1 hi
  rw [hget i hi', if_pos (horder.mem_iff.2 (List.mem_range.2 (by omega)))]

end

end NNIS
