import Mathlib.Algebra.BigOperators.Group.Finset.Basic
import Mathlib.Algebra.Order.BigOperators.Group.Finset
import Mathlib.Data.List.GetD
import Mathlib.Data.Multiset.Basic
import NNIS.Parallel.TreeReduction

/-!
# The tree of a reduction

A reduction combines its elements along a binary tree, some of whose leaves are empty. The shape of
the tree depends on the number of elements and of threads only, since a reduction commutes with
every map that respects the combination. In a commutative monoid a pass keeps the sum of its
elements, so the reduction of the leaves themselves counts every element once.

## Main definitions

* `ReductionTree`, `ReductionTree.eval`, `ReductionTree.leaves`.

## Main results

* `TreeReduction.map_pass`, `TreeReduction.map_reduce` — maps that respect the combination.
* `TreeReduction.sum_pass`, `TreeReduction.reduce_sum` — exact sums.
* `TreeReduction.exists_tree` — a reduction evaluates a tree in which every element occurs once.
-/

set_option autoImplicit false

namespace NNIS

/-- A binary tree of elements and empty leaves. -/
inductive ReductionTree (ι : Type)
  | leaf (element : ι)
  | empty
  | node (left right : ReductionTree ι)

namespace ReductionTree

variable {ι α : Type}

/-- The value of a tree. -/
def eval (combine : α → α → α) (empty : α) (value : ι → α) : ReductionTree ι → α
  | leaf element => value element
  | .empty => empty
  | node left right => combine (left.eval combine empty value) (right.eval combine empty value)

/-- The elements of a tree, as often as they occur. -/
def leaves : ReductionTree ι → Multiset ι
  | leaf element => {element}
  | empty => 0
  | node left right => left.leaves + right.leaves

/-- In a commutative monoid a tree evaluates to the sum of its elements. -/
theorem eval_add {M : Type} [AddCommMonoid M] (value : ι → M) (t : ReductionTree ι) :
    t.eval (· + ·) 0 value = (t.leaves.map value).sum := by
  induction t with
  | leaf element => rw [eval, leaves, Multiset.map_singleton, Multiset.sum_singleton]
  | empty => rfl
  | node left right hleft hright =>
    rw [eval, leaves, Multiset.map_add, Multiset.sum_add, hleft, hright]

/-- What all elements and the empty leaf satisfy, and combining keeps. -/
theorem eval_induction {P : α → Prop} {combine : α → α → α} {empty : α} {value : ι → α}
    {t : ReductionTree ι} (hcombine : ∀ a b, P a → P b → P (combine a b)) (hempty : P empty)
    (hvalue : ∀ i ∈ t.leaves, P (value i)) : P (t.eval combine empty value) := by
  induction t with
  | leaf element => exact hvalue element (Multiset.mem_singleton_self element)
  | empty => exact hempty
  | node left right hleft hright =>
    exact hcombine _ _ (hleft fun i hi => hvalue i (Multiset.mem_add.2 (.inl hi)))
      (hright fun i hi => hvalue i (Multiset.mem_add.2 (.inr hi)))

/-- A measure that combining does not lower is at least that of every element. -/
theorem le_eval {γ : Type} [Preorder γ] {f : α → γ} {P : α → Prop} {combine : α → α → α}
    {empty : α} {value : ι → α} {t : ReductionTree ι}
    (hcombine : ∀ a b, P a → P b → P (combine a b)) (hempty : P empty)
    (hvalue : ∀ i ∈ t.leaves, P (value i))
    (hle : ∀ a b, P a → P b → f a ≤ f (combine a b) ∧ f b ≤ f (combine a b)) :
    ∀ i ∈ t.leaves, f (value i) ≤ f (t.eval combine empty value) := by
  induction t with
  | leaf element =>
    intro i hi
    rw [Multiset.mem_singleton.1 hi]
    exact le_rfl
  | empty => exact fun i hi => absurd hi (Multiset.notMem_zero i)
  | node left right hleft hright =>
    have hl : ∀ i ∈ left.leaves, P (value i) := fun i hi => hvalue i (Multiset.mem_add.2 (.inl hi))
    have hr : ∀ i ∈ right.leaves, P (value i) := fun i hi => hvalue i (Multiset.mem_add.2 (.inr hi))
    obtain ⟨hfirst, hsecond⟩ := hle _ _ (eval_induction hcombine hempty hl)
      (eval_induction hcombine hempty hr)
    intro i hi
    rcases Multiset.mem_add.1 hi with hi | hi
    · exact (hleft hl i hi).trans hfirst
    · exact (hright hr i hi).trans hsecond

end ReductionTree

namespace TreeReduction

variable {α β : Type}

/-! ### Maps -/

section Map

variable {combine : α → α → α} {combine' : β → β → β} {f : α → β} {empty : α}

theorem map_round (hf : ∀ a b, f (combine a b) = combine' (f a) (f b)) (shared : ℕ → α)
    (stride : ℕ) : f ∘ round combine shared stride = round combine' (f ∘ shared) stride := by
  funext lane
  rw [Function.comp_apply, round, round]
  split_ifs
  · exact hf _ _
  · rfl

theorem map_rounds (hf : ∀ a b, f (combine a b) = combine' (f a) (f b)) (threads : ℕ)
    (shared : ℕ → α) : f (rounds combine threads shared) =
    rounds combine' threads (f ∘ shared) := by
  rw [rounds, rounds]
  generalize halvings (threads / 2) = strides
  induction strides generalizing shared with
  | nil => rfl
  | cons stride strides ih => rw [List.foldl_cons, List.foldl_cons, ih, map_round hf]

theorem map_start (hf : ∀ a b, f (combine a b) = combine' (f a) (f b)) (first second : Option α) :
    f (start combine empty first second) =
      start combine' (f empty) (first.map f) (second.map f) := by
  cases second with
  | none => cases first <;> rfl
  | some candidate =>
    cases first
    · exact hf _ _
    · exact hf _ _

theorem map_block (hf : ∀ a b, f (combine a b) = combine' (f a) (f b)) (threads : ℕ)
    (input : List α) (index : ℕ) :
    f (block combine empty threads input index) =
      block combine' (f empty) threads (input.map f) index := by
  rw [block, block, map_rounds hf]
  congr 1
  funext lane
  simp only [Function.comp_apply, map_start hf, List.getElem?_map]

theorem map_pass (hf : ∀ a b, f (combine a b) = combine' (f a) (f b)) (threads : ℕ)
    (input : List α) :
    (pass combine empty threads input).map f =
      pass combine' (f empty) threads (input.map f) := by
  rw [pass, pass, List.map_map, List.length_map]
  exact List.map_congr_left fun index _ => map_block hf threads input index

theorem map_reduceIn (hf : ∀ a b, f (combine a b) = combine' (f a) (f b)) (threads passes : ℕ)
    (input : List α) :
    (reduceIn combine empty threads passes input).map f =
      reduceIn combine' (f empty) threads passes (input.map f) := by
  induction passes generalizing input with
  | zero => rfl
  | succ passes ih =>
    rw [reduceIn, reduceIn, ← map_pass hf]
    simp only [List.length_map]
    split_ifs
    · exact List.head?_map.symm
    · exact ih _

/-- A reduction commutes with a map that respects the combination. -/
theorem map_reduce (hf : ∀ a b, f (combine a b) = combine' (f a) (f b)) (threads : ℕ)
    (input : List α) :
    (reduce combine empty threads input).map f =
      reduce combine' (f empty) threads (input.map f) := by
  rw [reduce, map_reduceIn hf, reduce, List.length_map]

end Map

/-! ### Sums -/

section Sum

variable {M : Type} [AddCommMonoid M]

/-- A round keeps the sum of the lanes. -/
theorem sum_round (shared : ℕ → M) (stride : ℕ) :
    ∑ lane ∈ Finset.range stride, round (· + ·) shared stride lane =
      ∑ lane ∈ Finset.range (2 * stride), shared lane := by
  rw [Nat.two_mul, Finset.sum_range_add, ← Finset.sum_add_distrib]
  refine Finset.sum_congr rfl fun lane hlane => ?_
  rw [round, if_pos (Finset.mem_range.1 hlane), Nat.add_comm]

/-- The rounds of a block return the sum of its lanes. -/
theorem rounds_sum (k : ℕ) (shared : ℕ → M) :
    rounds (· + ·) (2 ^ k) shared = ∑ lane ∈ Finset.range (2 ^ k), shared lane := by
  let Keeps (lanes : ℕ) (sh : ℕ → M) : Prop :=
    ∑ lane ∈ Finset.range lanes, sh lane = ∑ lane ∈ Finset.range (2 ^ k), shared lane
  have hstart : Keeps (2 ^ k) shared := rfl
  obtain ⟨last, hlast, heq⟩ := rounds_induction
    (fun stride sh (h : Keeps (2 * stride) sh) => (sum_round sh stride).trans h) hstart
  rw [heq, ← Finset.sum_range_one last]
  exact hlast

/-- The element of a list at a position, zero beyond its end. -/
private def entry (input : List M) (i : ℕ) : M := input[i]?.getD 0

private theorem sum_map_range (f : ℕ → M) (n : ℕ) :
    ((List.range n).map f).sum = ∑ i ∈ Finset.range n, f i := by
  induction n with
  | zero => rfl
  | succ n ih =>
    rw [List.range_succ, List.map_append, List.sum_append, ih, Finset.sum_range_succ,
      List.map_singleton, List.sum_singleton]

private theorem sum_entry (input : List M) :
    ∑ i ∈ Finset.range input.length, entry input i = input.sum := by
  rw [← sum_map_range]
  refine congrArg List.sum (List.ext_getElem ?_ fun i hi hi' => ?_)
  · rw [List.length_map, List.length_range]
  · rw [List.getElem_map, List.getElem_range, entry, List.getElem?_eq_getElem hi', Option.getD_some]

private theorem start_add (first second : Option M) :
    start (· + ·) 0 first second = first.getD 0 + second.getD 0 := by
  cases second with
  | none => exact (add_zero _).symm
  | some candidate => rfl

/-- A block returns the sum of its span. -/
private theorem block_sum (k : ℕ) (input : List M) (index : ℕ) :
    block (· + ·) 0 (2 ^ k) input index =
      ∑ i ∈ Finset.range (2 ^ k * 2), entry input (index * (2 ^ k * 2) + i) := by
  rw [block, rounds_sum]
  generalize 2 ^ k = threads
  rw [Nat.mul_two threads, Finset.sum_range_add, ← Finset.sum_add_distrib]
  refine Finset.sum_congr rfl fun lane _ => ?_
  have hfirst : index * threads * 2 + lane = index * (threads + threads) + lane := by
    rw [Nat.mul_assoc, Nat.mul_two]
  have hsecond : index * (threads + threads) + lane + threads =
      index * (threads + threads) + (threads + lane) := by
    rw [Nat.add_assoc, Nat.add_comm lane]
  simp only [start_add, entry, hfirst, hsecond]

/-- The sum of the first blocks is that of the elements before their end. -/
private theorem sum_blocks (k : ℕ) (input : List M) (blocks : ℕ) :
    ∑ index ∈ Finset.range blocks, block (· + ·) 0 (2 ^ k) input index =
      ∑ i ∈ Finset.range (blocks * (2 ^ k * 2)), entry input i := by
  induction blocks with
  | zero => rw [Nat.zero_mul, Finset.sum_range_zero, Finset.sum_range_zero]
  | succ blocks ih =>
    rw [Finset.sum_range_succ, ih, block_sum, Nat.succ_mul, Finset.sum_range_add]

/-- A pass keeps the sum of its elements. -/
theorem sum_pass (k : ℕ) (input : List M) :
    (pass (· + ·) 0 (2 ^ k) input).sum = input.sum := by
  have hspan : 0 < 2 ^ k * 2 := Nat.mul_pos (Nat.two_pow_pos k) Nat.two_pos
  have hcover : input.length ≤ input.length ⌈/⌉ (2 ^ k * 2) * (2 ^ k * 2) := by
    rw [Nat.mul_comm]
    exact (ceilDiv_le_iff_le_mul hspan).1 le_rfl
  have hblocks : (pass (· + ·) 0 (2 ^ k) input).sum =
      ∑ index ∈ Finset.range (input.length ⌈/⌉ (2 ^ k * 2)),
        block (· + ·) 0 (2 ^ k) input index := by
    rw [pass, sum_map_range]
  obtain ⟨rest, hrest⟩ := Nat.exists_eq_add_of_le hcover
  rw [hblocks, sum_blocks, hrest, Finset.sum_range_add, sum_entry]
  refine (congrArg (input.sum + ·) (Finset.sum_eq_zero fun i _ => ?_)).trans (add_zero _)
  rw [entry, List.getElem?_eq_none (by omega), Option.getD_none]

private theorem reduceIn_sum (k : ℕ) {passes : ℕ} {input : List M} {result : M}
    (h : reduceIn (· + ·) 0 (2 ^ k) passes input = some result) : result = input.sum := by
  induction passes generalizing input with
  | zero => exact nomatch h
  | succ passes ih =>
    rw [reduceIn] at h
    split_ifs at h with hone
    · obtain ⟨a, ha⟩ := List.length_eq_one_iff.1 hone
      rw [ha] at h
      obtain rfl := Option.some.inj h
      rw [← sum_pass k input, ha, List.sum_singleton]
    · rw [ih h, sum_pass]

/-- The reduction of a list in a commutative monoid is its sum. -/
theorem reduce_sum (k : ℕ) {input : List M} {result : M}
    (h : reduce (· + ·) 0 (2 ^ k) input = some result) : result = input.sum :=
  reduceIn_sum k h

end Sum

/-! ### Trees -/

section Tree

variable {combine : α → α → α} {empty : α}

private theorem reduceIn_isSome (k : ℕ) {passes : ℕ} {input : List α} (hne : input ≠ [])
    (hpasses : input.length ≤ passes) :
    ∃ result, reduceIn combine empty (2 ^ k) passes input = some result := by
  induction passes generalizing input with
  | zero => exact absurd (List.length_eq_zero_iff.1 (Nat.le_zero.1 hpasses)) hne
  | succ passes ih =>
    have hspan : 0 < 2 ^ k * 2 := Nat.mul_pos (Nat.two_pow_pos k) Nat.two_pos
    have hpos := List.length_pos_iff.2 hne
    have hlength := length_pass combine empty (2 ^ k) input
    have houtput : 0 < (pass combine empty (2 ^ k) input).length := by
      rw [hlength]
      refine Nat.pos_of_ne_zero fun hzero => ?_
      have hcover := (ceilDiv_le_iff_le_mul hspan).1 hzero.le
      omega
    rw [reduceIn]
    split_ifs with hone
    · exact ⟨_, List.head?_eq_some_head (List.length_pos_iff.1 houtput)⟩
    · refine ih (List.length_pos_iff.1 houtput) ?_
      have hmore : 1 < input.length := by
        by_contra hle
        have hsingle : input.length ⌈/⌉ (2 ^ k * 2) ≤ 1 :=
          (ceilDiv_le_iff_le_mul hspan).2 (by omega)
        omega
      have hlt := length_pass_lt combine empty k hmore
      omega

/-- A reduction of at least one element has a result. -/
theorem exists_reduce (k : ℕ) {input : List α} (hne : input ≠ []) :
    ∃ result, reduce combine empty (2 ^ k) input = some result :=
  reduceIn_isSome k hne le_rfl

private theorem sum_singletons (n : ℕ) :
    ((List.range n).map fun i => ({i} : Multiset ℕ)).sum = Multiset.range n := by
  induction n with
  | zero => rfl
  | succ n ih =>
    rw [List.range_succ, List.map_append, List.sum_append, ih, List.map_singleton,
      List.sum_singleton, Multiset.range_succ, ← Multiset.singleton_add, Multiset.add_comm]

/-- A reduction evaluates a tree in which every element of its input occurs once. -/
theorem exists_tree (k : ℕ) {input : List α} (hne : input ≠ []) :
    ∃ t : ReductionTree ℕ, t.leaves = Multiset.range input.length ∧
      reduce combine empty (2 ^ k) input =
        some (t.eval combine empty fun i => input.getD i empty) := by
  -- The reduction of the leaves themselves is the tree.
  let positions : List (ReductionTree ℕ) := (List.range input.length).map .leaf
  have hpositions : positions ≠ [] := by
    rw [← List.length_pos_iff, List.length_map, List.length_range]
    exact List.length_pos_iff.2 hne
  obtain ⟨t, ht⟩ := @exists_reduce _ ReductionTree.node .empty k _ hpositions
  refine ⟨t, ?_, ?_⟩
  · have hleaves := @map_reduce _ _ ReductionTree.node (· + ·) ReductionTree.leaves .empty
      (fun _ _ => rfl) (2 ^ k) positions
    rw [ht] at hleaves
    rw [reduce_sum k hleaves.symm, List.map_map]
    exact sum_singletons input.length
  · have heval := @map_reduce _ _ ReductionTree.node combine
      (ReductionTree.eval combine empty fun i => input.getD i empty) .empty (fun _ _ => rfl)
      (2 ^ k) positions
    have hinput : positions.map (ReductionTree.eval combine empty fun i => input.getD i empty) =
        input := by
      refine List.ext_getElem ?_ fun i hi hi' => ?_
      · rw [List.length_map, List.length_map, List.length_range]
      · rw [List.getElem_map, List.getElem_map, List.getElem_range]
        exact List.getD_eq_getElem _ _ hi'
    rw [ht, hinput] at heval
    exact heval.symm

end Tree

end TreeReduction

end NNIS
