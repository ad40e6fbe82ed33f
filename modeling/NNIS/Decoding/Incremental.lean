import Mathlib.Logic.Function.Basic
import Mathlib.Data.Nat.Notation
import Mathlib.Data.List.Basic
import NNIS.Decoding.Greedy

/-!
# Incremental decoders

A layered decoder keeps one list of rows per layer. A token passes through the layers in order:
each layer adds one row, computed from the layer's input, and its output depends on the input and
on all the rows of the layer, the new one included. The output of the last layer gives the output
of the decoder, which is held until the next token.

Rows are only ever added at the end, so the rows held before a token can be recovered by cutting
every layer. A state in which every layer holds one row per position is *aligned*; in an aligned
state cutting to an earlier position undoes the tokens since.

## Main definitions

* `Decoder`, `Decoder.State`, `Decoder.through`, `Decoder.step`, `Decoder.target`.
* `Decoder.State.cut`, `Decoder.State.Aligned`, `Decoder.State.SameRows`.

## Main results

* `Decoder.rows_step`, `Decoder.rows_advance` — a token adds one row to each layer.
* `Decoder.cut_advance` — cutting an aligned state undoes tokens.
* `Decoder.step_congr` — a step does not depend on the output held.
-/

set_option autoImplicit false

namespace NNIS

universe u

/-- A layered decoder with tokens `T`, hidden values `H`, rows `R` and outputs `O`. -/
structure Decoder (T H R O : Type u) where
  layers : ℕ
  /-- The input of the first layer. -/
  embed : T → H
  /-- The row a layer adds at a position. -/
  row : (layer position : ℕ) → H → R
  /-- The output of a layer, given its rows. -/
  block : (layer position : ℕ) → H → List R → H
  /-- The output of the decoder. -/
  head : H → O

namespace Decoder

/-- What a decoder holds between tokens: the next position, the rows of each layer and the output
for the next position. -/
@[ext]
structure State (R O : Type u) where
  position : ℕ
  rows : ℕ → List R
  output : O

namespace State

variable {R O : Type u}

/-- Every one of the first `layers` layers holds one row per position. -/
def Aligned (layers : ℕ) (s : State R O) : Prop :=
  ∀ l < layers, (s.rows l).length = s.position

/-- Cut every layer to at most `position` rows and go back to that position. -/
def cut (position : ℕ) (s : State R O) : State R O where
  position := position
  rows l := (s.rows l).take position
  output := s.output

/-- Equal positions and rows, whatever the outputs held. -/
def SameRows (s t : State R O) : Prop := s.position = t.position ∧ s.rows = t.rows

end State

variable {T H R O : Type u} (D : Decoder T H R O)

/-- The hidden value after the first `n` layers and the rows at that point. -/
def through (position : ℕ) (h : H) (rows : ℕ → List R) : ℕ → H × (ℕ → List R)
  | 0 => (h, rows)
  | n + 1 =>
    let (h, rows) := through position h rows n
    let rows := Function.update rows n (rows n ++ [D.row n position h])
    (D.block n position h (rows n), rows)

/-- The state after a token. -/
def step (t : T) (s : State R O) : State R O :=
  let (h, rows) := D.through s.position (D.embed t) s.rows D.layers
  { position := s.position + 1, rows := rows, output := D.head h }

/-- A decoder with a choice of token from its output. -/
def target (choose : O → T) : Target (State R O) T where
  step := D.step
  choose s := choose s.output

/-! ### Rows -/

/-- After `n` layers the first `n` layers hold one more row. -/
theorem rows_through (position : ℕ) (h : H) (rows : ℕ → List R) (n l : ℕ) :
    ∃ x, (D.through position h rows n).2 l = if l < n then rows l ++ [x] else rows l := by
  induction n with
  | zero => exact ⟨D.row 0 0 h, rfl⟩
  | succ n ih =>
    obtain ⟨x, hx⟩ := ih
    by_cases hl : l = n
    · subst hl
      rw [if_neg (Nat.lt_irrefl l)] at hx
      refine ⟨D.row l position (D.through position h rows l).1, ?_⟩
      rw [if_pos (Nat.lt_succ_self l)]
      change Function.update _ l _ l = _
      rw [Function.update_self, hx]
    · refine ⟨x, ?_⟩
      change Function.update _ n _ l = _
      rw [Function.update_of_ne hl, hx]
      by_cases hln : l < n
      · rw [if_pos hln, if_pos (by omega)]
      · rw [if_neg hln, if_neg (by omega)]

/-- A token adds one row to each layer. -/
theorem rows_step (t : T) (s : State R O) (l : ℕ) :
    ∃ x, (D.step t s).rows l = if l < D.layers then s.rows l ++ [x] else s.rows l :=
  D.rows_through s.position (D.embed t) s.rows D.layers l

@[simp] theorem position_step (t : T) (s : State R O) :
    (D.step t s).position = s.position + 1 := rfl

theorem length_rows_step (t : T) (s : State R O) {l : ℕ} (hl : l < D.layers) :
    ((D.step t s).rows l).length = (s.rows l).length + 1 := by
  obtain ⟨x, hx⟩ := D.rows_step t s l
  rw [hx, if_pos hl, List.length_append, List.length_singleton]

/-- Outside the layers nothing changes. -/
theorem rows_step_of_le (t : T) (s : State R O) {l : ℕ} (hl : D.layers ≤ l) :
    (D.step t s).rows l = s.rows l := by
  obtain ⟨x, hx⟩ := D.rows_step t s l
  rw [hx, if_neg (by omega)]

/-- A step does not depend on the output held. -/
theorem step_congr {s s' : State R O} (h : s.SameRows s') (t : T) : D.step t s = D.step t s' := by
  rw [step, step, h.1, h.2]

variable (choose : O → T)

/-- Tokens add one row each to each layer. -/
theorem rows_advance (tokens : List T) (s : State R O) (l : ℕ) :
    ∃ new, ((D.target choose).advance tokens s).rows l = s.rows l ++ new ∧
      new.length = if l < D.layers then tokens.length else 0 := by
  induction tokens generalizing s with
  | nil => exact ⟨[], (List.append_nil _).symm, by simp only [List.length_nil, ite_self]⟩
  | cons t tokens ih =>
    obtain ⟨new, hnew, hlen⟩ := ih (D.step t s)
    obtain ⟨x, hx⟩ := D.rows_step t s l
    by_cases hl : l < D.layers
    · refine ⟨x :: new, ?_, ?_⟩
      · rw [Target.advance_cons]
        change ((D.target choose).advance tokens (D.step t s)).rows l = _
        rw [hnew, hx, if_pos hl, List.append_assoc, List.singleton_append]
      · rw [if_pos hl] at hlen ⊢
        rw [List.length_cons, hlen, List.length_cons]
    · refine ⟨new, ?_, ?_⟩
      · rw [Target.advance_cons]
        change ((D.target choose).advance tokens (D.step t s)).rows l = _
        rw [hnew, hx, if_neg hl]
      · rw [if_neg hl] at hlen ⊢
        exact hlen

@[simp] theorem position_advance (tokens : List T) (s : State R O) :
    ((D.target choose).advance tokens s).position = s.position + tokens.length := by
  induction tokens generalizing s with
  | nil => rfl
  | cons t tokens ih =>
    rw [Target.advance_cons, ih, List.length_cons]
    change s.position + 1 + tokens.length = _
    omega

theorem length_rows_advance (tokens : List T) (s : State R O) {l : ℕ} (hl : l < D.layers) :
    (((D.target choose).advance tokens s).rows l).length = (s.rows l).length + tokens.length := by
  obtain ⟨new, hnew, hlen⟩ := D.rows_advance choose tokens s l
  rw [hnew, List.length_append, hlen, if_pos hl]

/-- Tokens keep an aligned state aligned. -/
theorem aligned_advance {s : State R O} (h : s.Aligned D.layers) (tokens : List T) :
    ((D.target choose).advance tokens s).Aligned D.layers := by
  intro l hl
  rw [D.length_rows_advance choose tokens s hl, position_advance, h l hl]

/-- What holds of every output of the head holds along a draft. -/
theorem forall_output_trace {P : O → Prop} (hhead : ∀ h, P (D.head h)) (tokens : List T)
    {s : State R O} (hs : P s.output) : ∀ s' ∈ (D.target choose).trace tokens s, P s'.output := by
  induction tokens generalizing s with
  | nil =>
    intro s' hs'
    rw [List.mem_singleton.1 hs']
    exact hs
  | cons t tokens ih =>
    rw [Target.trace, List.forall_mem_cons]
    exact ⟨hs, ih (hhead _)⟩

/-! ### Cutting -/

/-- In an aligned state, cutting undoes the tokens after a position. The rows outside the layers
are not the decoder's; they are required to be empty. -/
theorem cut_advance {s : State R O} (h : s.Aligned D.layers)
    (hout : ∀ l, D.layers ≤ l → s.rows l = []) (tokens : List T) {k : ℕ}
    (hk : k ≤ tokens.length) :
    (((D.target choose).advance tokens s).cut (s.position + k)).SameRows
      ((D.target choose).advance (tokens.take k) s) := by
  have hsplit : (D.target choose).advance tokens s =
      (D.target choose).advance (tokens.drop k) ((D.target choose).advance (tokens.take k) s) := by
    rw [← Target.advance_append, List.take_append_drop]
  refine ⟨?_, funext fun l => ?_⟩
  · rw [position_advance, List.length_take, Nat.min_eq_left hk]
    rfl
  · obtain ⟨new, hnew, hlen⟩ :=
      D.rows_advance choose (tokens.drop k) ((D.target choose).advance (tokens.take k) s) l
    change (((D.target choose).advance tokens s).rows l).take (s.position + k) = _
    rw [hsplit, hnew]
    by_cases hl : l < D.layers
    · have hl' : (((D.target choose).advance (tokens.take k) s).rows l).length =
          s.position + k := by
        rw [D.length_rows_advance choose _ s hl, h l hl, List.length_take, Nat.min_eq_left hk]
      rw [← hl', List.take_left]
    · obtain ⟨old, hold, holdlen⟩ := D.rows_advance choose (tokens.take k) s l
      rw [if_neg hl] at hlen holdlen
      rw [List.length_eq_zero_iff.1 hlen, List.append_nil, hold,
        List.length_eq_zero_iff.1 holdlen, hout l (by omega), List.append_nil, List.take_nil]

end Decoder

end NNIS
