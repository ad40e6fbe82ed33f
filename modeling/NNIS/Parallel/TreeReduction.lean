import Mathlib.Algebra.Order.Floor.Div
import Mathlib.Algebra.Order.Group.Nat
import NNIS.Parallel.Loop

/-!
# Tree reductions

A block of threads reduces the elements of its span in rounds between barriers: every thread first
combines two elements of the input, and in the round of a stride the threads below the stride
combine their value with the one that is a stride further. As the threads of a round read only what
the round does not write, a round is one step of the shared array. Several blocks reduce a list to a
shorter one, and the passes are repeated until one element is left.

An element *absorbs* a set of elements if combining it with any of them, on either side, gives the
element back. A reduction returns an element of its input that absorbs the others.

## Main definitions

* `TreeReduction.round`, `TreeReduction.block`, `TreeReduction.pass`, `TreeReduction.reduce`.
* `TreeReduction.Absorbs`.

## Main results

* `TreeReduction.absorbs_of_better`.
* `TreeReduction.rounds_induction`, `TreeReduction.block_eq`, `TreeReduction.reduce_eq`.
-/

set_option autoImplicit false

namespace NNIS

namespace TreeReduction

variable {α : Type} (combine : α → α → α) (empty : α)

/-- One round: the threads below the stride combine. -/
def round (shared : ℕ → α) (stride : ℕ) : ℕ → α := fun lane =>
  if lane < stride then combine (shared lane) (shared (lane + stride)) else shared lane

/-- The value of the first thread after the rounds of a block of a number of threads. -/
def rounds (threads : ℕ) (shared : ℕ → α) : α :=
  (halvings (threads / 2)).foldl (round combine) shared 0

/-- What a thread starts with: an element, if there is one, combined with another, if there is
one. -/
def start (first : Option α) : (second : Option α) → α
  | some candidate => combine (first.getD empty) candidate
  | none => first.getD empty

/-- The value of one block. -/
def block (threads : ℕ) (input : List α) (index : ℕ) : α :=
  rounds combine threads fun lane =>
    let first := index * threads * 2 + lane
    start combine empty input[first]? input[first + threads]?

/-- The values of all blocks. -/
def pass (threads : ℕ) (input : List α) : List α :=
  (List.range (input.length ⌈/⌉ (threads * 2))).map (block combine empty threads input)

/-- Passes, until one element is left. -/
def reduceIn (threads : ℕ) : (passes : ℕ) → List α → Option α
  | 0, _ => none
  | passes + 1, input =>
    let output := pass combine empty threads input
    if output.length = 1 then output.head? else reduceIn threads passes output

/-- The element that is left after all passes. -/
def reduce (threads : ℕ) (input : List α) : Option α :=
  reduceIn combine empty threads input.length input

/-- The rounds read the lanes of the threads only. -/
theorem rounds_congr {combine : α → α → α} {threads : ℕ} (hthreads : 0 < threads)
    {shared shared' : ℕ → α} (h : ∀ lane < threads, shared lane = shared' lane) :
    rounds combine threads shared = rounds combine threads shared' := by
  have hround (strides : List ℕ) (hstrides : ∀ stride ∈ strides, 2 * stride ≤ threads)
      (sh sh' : ℕ → α) (hsh : ∀ lane < threads, sh lane = sh' lane) :
      strides.foldl (round combine) sh 0 = strides.foldl (round combine) sh' 0 := by
    induction strides generalizing sh sh' with
    | nil => exact hsh 0 hthreads
    | cons stride strides ih =>
      have hstride := hstrides stride List.mem_cons_self
      refine ih (fun s hs => hstrides s (List.mem_cons_of_mem stride hs)) _ _ fun lane hlane => ?_
      rw [round, round, hsh lane hlane]
      split_ifs with hlt
      · rw [hsh (lane + stride) (by omega)]
      · rfl
  refine hround _ (fun stride hmem => ?_) shared shared' h
  have hle := le_of_mem_halvings hmem
  omega

/-- An element that combining gives back, among elements that combining does not leave. -/
structure Absorbs (P : α → Prop) (winner : α) : Prop where
  left : ∀ a, P a → combine winner a = winner
  right : ∀ a, P a → combine a winner = winner
  closed : ∀ a b, P a → P b → P (combine a b)

variable {combine empty} {P : α → Prop} {winner : α}

/-- Where the better one of two elements is kept, one that is better than all others absorbs
them. -/
theorem absorbs_of_better {better : α → α → Bool}
    (hcombine : ∀ a b, combine a b = if better b a then b else a) (winner : α) :
    Absorbs combine (fun a => a = winner ∨ better winner a = true ∧ better a winner = false)
      winner where
  left a := by
    rintro (rfl | ⟨-, hworse⟩)
    · rw [hcombine, ite_id]
    · rw [hcombine, hworse, if_neg Bool.false_ne_true]
  right a := by
    rintro (rfl | ⟨hbetter, -⟩)
    · rw [hcombine, ite_id]
    · rw [hcombine, if_pos hbetter]
  closed a b ha hb := by
    rw [hcombine]
    split_ifs
    · exact hb
    · exact ha

/-- The first lanes hold elements of a set, and the winner is among them. -/
private structure Holds (P : α → Prop) (winner : α) (lanes : ℕ) (shared : ℕ → α) : Prop where
  all : ∀ lane < lanes, P (shared lane)
  winner : ∃ lane < lanes, shared lane = winner

/-- A round halves the lanes that hold the winner. -/
private theorem Holds.round {stride : ℕ} {shared : ℕ → α} (habsorbs : Absorbs combine P winner)
    (h : Holds P winner (2 * stride) shared) :
    Holds P winner stride (round combine shared stride) := by
  refine ⟨fun lane hlane => ?_, ?_⟩
  · rw [TreeReduction.round, if_pos hlane]
    exact habsorbs.closed _ _ (h.all lane (by omega)) (h.all (lane + stride) (by omega))
  · obtain ⟨lane, hlane, hwinner⟩ := h.winner
    rcases Nat.lt_or_ge lane stride with hlt | hge
    · refine ⟨lane, hlt, ?_⟩
      rw [TreeReduction.round, if_pos hlt, hwinner]
      exact habsorbs.left _ (h.all (lane + stride) (by omega))
    · refine ⟨lane - stride, by omega, ?_⟩
      rw [TreeReduction.round, if_pos (by omega), Nat.sub_add_cancel hge, hwinner]
      exact habsorbs.right _ (h.all (lane - stride) (by omega))

private theorem Holds.first {shared : ℕ → α} (h : Holds P winner 1 shared) :
    shared 0 = winner := by
  obtain ⟨lane, hlane, hwinner⟩ := h.winner
  obtain rfl := Nat.lt_one_iff.1 hlane
  exact hwinner

/-- A property of the first lanes that every round carries over to half of them. -/
private theorem foldl_halvingsIn {Q : ℕ → (ℕ → α) → Prop}
    (hround : ∀ stride shared, Q (2 * stride) shared → Q stride (round combine shared stride))
    {j rounds : ℕ} (hrounds : j < rounds) {shared : ℕ → α} (h : Q (2 * 2 ^ j) shared) :
    Q 1 ((halvingsIn rounds (2 ^ j)).foldl (round combine) shared) := by
  induction j generalizing rounds shared with
  | zero =>
    obtain ⟨rounds, rfl⟩ := Nat.exists_eq_succ_of_ne_zero (Nat.ne_of_gt hrounds)
    have hend : halvingsIn rounds 0 = [] := by
      cases rounds <;> rfl
    change Q 1 ((halvingsIn rounds 0).foldl (round combine) (round combine shared 1))
    rw [hend]
    exact hround 1 shared h
  | succ j ih =>
    obtain ⟨rounds, rfl⟩ := Nat.exists_eq_succ_of_ne_zero (Nat.ne_of_gt (Nat.zero_lt_of_lt hrounds))
    have hhalf : 2 ^ (j + 1) / 2 = 2 ^ j := by
      rw [Nat.pow_succ, Nat.mul_div_cancel _ Nat.two_pos]
    rw [halvingsIn, if_neg (Nat.two_pow_pos _).ne', hhalf, List.foldl_cons]
    refine ih (Nat.lt_of_succ_lt_succ hrounds) ?_
    rw [← Nat.pow_succ']
    exact hround _ shared h

/-- Induction over the rounds of a block of a power of two of threads. -/
theorem rounds_induction {Q : ℕ → (ℕ → α) → Prop}
    (hround : ∀ stride shared, Q (2 * stride) shared → Q stride (round combine shared stride))
    {k : ℕ} {shared : ℕ → α} (h : Q (2 ^ k) shared) :
    ∃ last, Q 1 last ∧ rounds combine (2 ^ k) shared = last 0 := by
  rw [rounds, halvings]
  cases k with
  | zero => exact ⟨shared, h, rfl⟩
  | succ j =>
    have hhalf : 2 ^ (j + 1) / 2 = 2 ^ j := by
      rw [Nat.pow_succ, Nat.mul_div_cancel _ Nat.two_pos]
    rw [hhalf]
    exact ⟨_, foldl_halvingsIn hround Nat.lt_two_pow_self (by rwa [← Nat.pow_succ']), rfl⟩

/-- A block that holds the winner returns it. -/
private theorem rounds_eq (habsorbs : Absorbs combine P winner) {k : ℕ} {shared : ℕ → α}
    (h : Holds P winner (2 ^ k) shared) : rounds combine (2 ^ k) shared = winner := by
  obtain ⟨last, hlast, heq⟩ := rounds_induction (fun _ _ => Holds.round habsorbs) h
  exact heq.trans hlast.first

/-- The value of a block is in the set of its elements. -/
private theorem rounds_mem (hclosed : ∀ a b, P a → P b → P (combine a b)) (threads : ℕ)
    {shared : ℕ → α} (h : ∀ lane, P (shared lane)) : P (rounds combine threads shared) := by
  rw [rounds]
  generalize halvings (threads / 2) = strides
  induction strides generalizing shared with
  | nil => exact h 0
  | cons stride strides ih =>
    refine ih fun lane => ?_
    rw [round]
    split_ifs
    · exact hclosed _ _ (h lane) (h (lane + stride))
    · exact h lane

/-! ### Blocks -/

section Blocks

variable {input : List α}

private theorem mem_of_getD (hall : ∀ a ∈ input, P a) (hempty : P empty) (i : ℕ) :
    P (input[i]?.getD empty) := by
  cases hi : input[i]? with
  | none => exact hempty
  | some a => exact hall a (List.mem_of_getElem? hi)

private theorem start_mem (habsorbs : Absorbs combine P winner) (hall : ∀ a ∈ input, P a)
    (hempty : P empty) (i j : ℕ) : P (start combine empty input[i]? input[j]?) := by
  cases hj : input[j]? with
  | none => exact mem_of_getD hall hempty i
  | some b =>
    exact habsorbs.closed _ _ (mem_of_getD hall hempty i) (hall b (List.mem_of_getElem? hj))

/-- A thread that reads the winner starts with it. -/
private theorem start_eq (habsorbs : Absorbs combine P winner) (hall : ∀ a ∈ input, P a)
    (hempty : P empty) {i j : ℕ} (h : input[i]? = some winner ∨ input[j]? = some winner) :
    start combine empty input[i]? input[j]? = winner := by
  rcases h with hi | hj
  · rw [hi]
    cases hj : input[j]? with
    | none => rfl
    | some b => exact habsorbs.left b (hall b (List.mem_of_getElem? hj))
  · rw [hj]
    exact habsorbs.right _ (mem_of_getD hall hempty i)

/-- The block of the winner's position returns the winner. -/
theorem block_eq (habsorbs : Absorbs combine P winner) (hall : ∀ a ∈ input, P a) (hempty : P empty)
    {k position : ℕ} (hposition : input[position]? = some winner) :
    block combine empty (2 ^ k) input (position / (2 ^ k * 2)) = winner := by
  have hthreads : 0 < 2 ^ k := Nat.two_pow_pos k
  refine rounds_eq habsorbs ⟨fun lane _ => start_mem habsorbs hall hempty _ _, ?_⟩
  have hdiv := Nat.div_add_mod' position (2 ^ k * 2)
  have hmod := Nat.mod_lt position (Nat.mul_pos hthreads Nat.two_pos)
  rw [← Nat.mul_assoc] at hdiv
  rcases Nat.lt_or_ge (position % (2 ^ k * 2)) (2 ^ k) with hlt | hge
  · refine ⟨position % (2 ^ k * 2), hlt, start_eq habsorbs hall hempty (.inl ?_)⟩
    rw [hdiv]
    exact hposition
  · refine ⟨position % (2 ^ k * 2) - 2 ^ k, by omega, start_eq habsorbs hall hempty (.inr ?_)⟩
    rw [Nat.add_assoc, Nat.sub_add_cancel hge, hdiv]
    exact hposition

/-- A pass keeps the winner and the set. -/
theorem pass_spec (habsorbs : Absorbs combine P winner) (hall : ∀ a ∈ input, P a)
    (hempty : P empty) (hwinner : winner ∈ input) (k : ℕ) :
    winner ∈ pass combine empty (2 ^ k) input ∧
      ∀ a ∈ pass combine empty (2 ^ k) input, P a := by
  have hspan : 0 < 2 ^ k * 2 := Nat.mul_pos (Nat.two_pow_pos k) Nat.two_pos
  constructor
  · obtain ⟨position, hposition⟩ := List.mem_iff_getElem?.1 hwinner
    have hlt : position < input.length := (List.getElem?_eq_some_iff.1 hposition).1
    refine List.mem_map.2 ⟨position / (2 ^ k * 2), List.mem_range.2 ?_,
      block_eq habsorbs hall hempty hposition⟩
    refine Nat.lt_of_not_le fun hle => ?_
    have hcover := (ceilDiv_le_iff_le_mul hspan).1 hle
    have hstart := Nat.div_mul_le_self position (2 ^ k * 2)
    rw [Nat.mul_comm] at hcover
    omega
  · intro a ha
    obtain ⟨index, -, rfl⟩ := List.mem_map.1 ha
    exact rounds_mem habsorbs.closed _ fun lane => start_mem habsorbs hall hempty _ _

theorem length_pass (combine : α → α → α) (empty : α) (threads : ℕ) (input : List α) :
    (pass combine empty threads input).length = input.length ⌈/⌉ (threads * 2) := by
  rw [pass, List.length_map, List.length_range]

/-- A pass over more than one element leaves fewer. -/
theorem length_pass_lt (combine : α → α → α) (empty : α) (k : ℕ) (h : 1 < input.length) :
    (pass combine empty (2 ^ k) input).length < input.length := by
  have hspan : 2 ≤ 2 ^ k * 2 := Nat.le_mul_of_pos_left 2 (Nat.two_pow_pos k)
  rw [length_pass]
  refine Nat.lt_of_le_pred (Nat.zero_lt_of_lt h) ((ceilDiv_le_iff_le_mul (by omega)).2 ?_)
  have hmul : 2 * (input.length - 1) ≤ 2 ^ k * 2 * (input.length - 1) :=
    Nat.mul_le_mul_right _ hspan
  change _ ≤ 2 ^ k * 2 * (input.length - 1)
  omega

private theorem reduceIn_eq (habsorbs : Absorbs combine P winner) (hempty : P empty) (k : ℕ)
    {passes : ℕ} (hall : ∀ a ∈ input, P a) (hwinner : winner ∈ input)
    (hpasses : input.length ≤ passes) :
    reduceIn combine empty (2 ^ k) passes input = some winner := by
  induction passes generalizing input with
  | zero =>
    rw [List.length_eq_zero_iff.1 (Nat.le_zero.1 hpasses)] at hwinner
    exact absurd hwinner List.not_mem_nil
  | succ passes ih =>
    obtain ⟨hin, hset⟩ := pass_spec habsorbs hall hempty hwinner k
    rw [reduceIn]
    split_ifs with hone
    · obtain ⟨a, ha⟩ := List.length_eq_one_iff.1 hone
      rw [ha, List.mem_singleton] at hin
      rw [ha, hin]
      rfl
    · refine ih hset hin ?_
      have hpos := List.length_pos_of_mem hin
      rcases Nat.lt_or_ge 1 input.length with hmore | hless
      · have hlt := length_pass_lt combine empty k hmore
        omega
      · exfalso
        have hsingle : input.length ⌈/⌉ (2 ^ k * 2) ≤ 1 := by
          refine (ceilDiv_le_iff_le_mul (Nat.mul_pos (Nat.two_pow_pos k) Nat.two_pos)).2 ?_
          have hspan : 0 < 2 ^ k * 2 := Nat.mul_pos (Nat.two_pow_pos k) Nat.two_pos
          rw [Nat.mul_one]
          omega
        rw [pass, List.length_map, List.length_range] at hone hpos
        omega

/-- The passes of blocks of a power of two of threads return the winner. -/
theorem reduce_eq (habsorbs : Absorbs combine P winner) (hempty : P empty) (k : ℕ)
    (hall : ∀ a ∈ input, P a) (hwinner : winner ∈ input) :
    reduce combine empty (2 ^ k) input = some winner :=
  reduceIn_eq habsorbs hempty k hall hwinner (Nat.le_refl _)

end Blocks

end TreeReduction

end NNIS
