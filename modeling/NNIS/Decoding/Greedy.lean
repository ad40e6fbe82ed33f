import Mathlib.Data.List.Basic
import Mathlib.Data.Nat.Notation
import Mathlib.Tactic.SplitIfs

/-!
# Greedy decoding and speculative drafts

A *target* chooses a token in each of its states and moves on by any token. Greedy decoding takes
the chosen token again and again. A draft is a guess of the tokens to come: the target's choices
along the draft are collected first, and the draft is then kept as far as it agrees with them. The
kept part followed by one more choice of the target is what greedy decoding yields, whatever the
draft. Greedy decoding that ends after the first token of a given kind yields the shortest beginning
that ends in such a token, or all of it if there is none.

## Main definitions

* `Target`, `Target.advance`, `Target.greedy`.
* `Target.trace`, `Target.choices` — the states before each token of a draft and after the last
  one, and the choices made there.
* `agreement`, `speculated` — the length of the kept part, and the tokens emitted for a draft.
* `Target.greedyUntil`, `Target.picks`, `ShortestUntil`.

## Main results

* `Target.speculated_choices` — a draft emits greedy tokens.
* `Target.greedy_add` — greedy decoding continues from the state it reached.
* `Target.agreement_choices_maximal` — the kept part is the longest agreeing one.
* `Target.greedyUntil_shortest`.
-/

set_option autoImplicit false

namespace NNIS

universe u v

/-- The length of the longest common beginning of a draft and a list of choices. -/
def agreement {T : Type u} [DecidableEq T] (draft choices : List T) : ℕ :=
  ((draft.zip choices).takeWhile fun pair => pair.1 = pair.2).length

/-- The agreeing part of a draft followed by the choice made there. -/
def speculated {T : Type u} [DecidableEq T] (draft choices : List T) : List T :=
  draft.take (agreement draft choices) ++ choices[agreement draft choices]?.toList

section Agreement

variable {T : Type u} [DecidableEq T]

theorem agreement_cons (t c : T) (draft choices : List T) :
    agreement (t :: draft) (c :: choices) = if t = c then agreement draft choices + 1 else 0 := by
  by_cases h : t = c
  · simp only [agreement, List.zip_cons_cons, h, decide_true, List.takeWhile_cons_of_pos,
      List.length_cons, ↓reduceIte]
  · simp only [agreement, List.zip_cons_cons, h, decide_false, Bool.false_eq_true,
      not_false_eq_true, List.takeWhile_cons_of_neg, List.length_nil, ↓reduceIte]

theorem agreement_le (draft choices : List T) : agreement draft choices ≤ draft.length := by
  calc agreement draft choices ≤ (draft.zip choices).length :=
      (List.takeWhile_sublist _).length_le
    _ ≤ draft.length := by
      rw [List.length_zip]
      exact Nat.min_le_left _ _

theorem speculated_cons (t c : T) (draft choices : List T) :
    speculated (t :: draft) (c :: choices) =
      if t = c then c :: speculated draft choices else [c] := by
  by_cases h : t = c
  · simp only [speculated, agreement_cons, h, ↓reduceIte, List.take_succ_cons, List.cons_append,
      List.getElem?_cons_succ]
  · simp only [speculated, agreement_cons, h, ↓reduceIte, List.take_zero, List.nil_append,
      List.getElem?_cons_zero, Option.toList_some]

end Agreement

/-- A machine that chooses a token in each state and moves on by any token. -/
structure Target (S : Type u) (T : Type v) where
  /-- The state after a token. -/
  step : T → S → S
  /-- The token chosen in a state. -/
  choose : S → T

namespace Target

variable {S : Type u} {T : Type v} (M : Target S T)

/-- The state after a list of tokens. -/
def advance (tokens : List T) (s : S) : S := tokens.foldl (fun s t => M.step t s) s

/-- The first `n` tokens of greedy decoding. -/
def greedy : ℕ → S → List T
  | 0, _ => []
  | n + 1, s => M.choose s :: greedy n (M.step (M.choose s) s)

/-- The choices of the target before each token of a draft and after the last one. -/
def choices : List T → S → List T
  | [], s => [M.choose s]
  | t :: draft, s => M.choose s :: choices draft (M.step t s)

/-- The states of the target before each token of a draft and after the last one. -/
def trace : List T → S → List S
  | [], s => [s]
  | t :: draft, s => s :: trace draft (M.step t s)

@[simp] theorem advance_nil (s : S) : M.advance [] s = s := rfl

@[simp] theorem advance_cons (t : T) (tokens : List T) (s : S) :
    M.advance (t :: tokens) s = M.advance tokens (M.step t s) := rfl

theorem advance_append (tokens more : List T) (s : S) :
    M.advance (tokens ++ more) s = M.advance more (M.advance tokens s) := List.foldl_append

theorem advance_concat (tokens : List T) (t : T) (s : S) :
    M.advance (tokens ++ [t]) s = M.step t (M.advance tokens s) := M.advance_append tokens [t] s

@[simp] theorem length_greedy (n : ℕ) (s : S) : (M.greedy n s).length = n := by
  induction n generalizing s with
  | zero => rfl
  | succ n ih => rw [greedy, List.length_cons, ih]

/-- Greedy decoding continues from the state it reached. -/
theorem greedy_add (m n : ℕ) (s : S) :
    M.greedy (m + n) s = M.greedy m s ++ M.greedy n (M.advance (M.greedy m s) s) := by
  induction m generalizing s with
  | zero => simp only [Nat.zero_add, greedy, advance_nil, List.nil_append]
  | succ m ih => simp only [Nat.succ_add, greedy, ih, advance_cons, List.cons_append]

@[simp] theorem length_choices (draft : List T) (s : S) :
    (M.choices draft s).length = draft.length + 1 := by
  induction draft generalizing s with
  | nil => rfl
  | cons t draft ih => rw [choices, List.length_cons, ih, List.length_cons]

theorem choices_eq (draft : List T) (s : S) :
    M.choices draft s = (M.trace draft s).map M.choose := by
  induction draft generalizing s with
  | nil => rfl
  | cons t draft ih => rw [choices, ih, trace, List.map_cons]

@[simp] theorem length_trace (draft : List T) (s : S) :
    (M.trace draft s).length = draft.length + 1 := by
  rw [← M.length_choices draft s, choices_eq, List.length_map]

theorem trace_concat (draft : List T) (t : T) (s : S) :
    M.trace (draft ++ [t]) s = M.trace draft s ++ [M.advance (draft ++ [t]) s] := by
  induction draft generalizing s with
  | nil => rfl
  | cons x draft ih => rw [List.cons_append, trace, ih, trace, List.cons_append, advance_cons]

section Speculation

variable [DecidableEq T]

/-- A draft emits the greedy tokens, one more than it agrees with. -/
theorem speculated_choices (draft : List T) (s : S) :
    speculated draft (M.choices draft s) =
      M.greedy (agreement draft (M.choices draft s) + 1) s := by
  induction draft generalizing s with
  | nil => rfl
  | cons t draft ih =>
    rw [choices, speculated_cons, agreement_cons]
    by_cases h : t = M.choose s
    · simp only [h, ↓reduceIte, ih, greedy]
    · simp only [h, ↓reduceIte, greedy]

/-- Past the agreeing part the draft ends or differs from the greedy token. -/
theorem agreement_choices_maximal (draft : List T) (s : S) :
    agreement draft (M.choices draft s) = draft.length ∨
      draft[agreement draft (M.choices draft s)]? ≠
        (M.greedy (agreement draft (M.choices draft s) + 1)
          s)[agreement draft (M.choices draft s)]? := by
  induction draft generalizing s with
  | nil => exact Or.inl rfl
  | cons t draft ih =>
    rw [choices, agreement_cons]
    by_cases h : t = M.choose s
    · simp only [h, ↓reduceIte, List.length_cons, Nat.add_right_cancel_iff, greedy,
        List.getElem?_cons_succ]
      exact ih _
    · refine Or.inr ?_
      simp only [h, ↓reduceIte, List.getElem?_cons_zero, greedy, ne_eq, Option.some.injEq,
        not_false_eq_true]

end Speculation

end Target

/-- The shortest beginning of a list that ends in a stop element, or the whole list if it has
none. -/
structure ShortestUntil {T : Type v} (stop : T → Bool) (whole tokens : List T) : Prop where
  isPrefix : tokens <+: whole
  before : ∀ t ∈ tokens.dropLast, stop t = false
  ends : tokens = whole ∨ ∃ t ∈ tokens.getLast?, stop t = true

namespace ShortestUntil

variable {T : Type v} {stop : T → Bool} {whole tokens : List T} {t : T}

theorem nil : ShortestUntil stop [] [] :=
  ⟨List.prefix_rfl, nofun, .inl rfl⟩

theorem last (rest : List T) (h : stop t = true) : ShortestUntil stop (t :: rest) [t] where
  isPrefix := ⟨rest, rfl⟩
  before := nofun
  ends := .inr ⟨t, rfl, h⟩

theorem cons (ht : stop t = false) (h : ShortestUntil stop whole tokens) :
    ShortestUntil stop (t :: whole) (t :: tokens) where
  isPrefix := (List.prefix_cons_inj t).2 h.isPrefix
  before u hu := by
    cases tokens with
    | nil => exact absurd hu List.not_mem_nil
    | cons v rest =>
      rw [List.dropLast_cons_of_ne_nil (List.cons_ne_nil v rest)] at hu
      rcases List.mem_cons.1 hu with rfl | hu
      · exact ht
      · exact h.before u hu
  ends := by
    refine h.ends.imp (congrArg _) ?_
    rintro ⟨u, hu, hstop⟩
    refine ⟨u, ?_, hstop⟩
    cases tokens with
    | nil => exact absurd hu nofun
    | cons v rest => rwa [List.getLast?_cons_cons]

end ShortestUntil

namespace Target

variable {S : Type u} {T : Type v} (M : Target S T) (stop : T → Bool)

/-- At most `n` tokens of greedy decoding, up to the first stop token. -/
def greedyUntil : ℕ → S → List T
  | 0, _ => []
  | n + 1, s =>
    if stop (M.choose s) then [M.choose s]
    else M.choose s :: greedyUntil n (M.step (M.choose s) s)

/-- The states that these tokens are chosen in. -/
def picks : ℕ → S → List S
  | 0, _ => []
  | n + 1, s => if stop (M.choose s) then [s] else s :: picks n (M.step (M.choose s) s)

theorem mem_picks_succ (n : ℕ) (s : S) : s ∈ M.picks stop (n + 1) s := by
  rw [picks]
  split_ifs <;> exact List.mem_cons_self

theorem picks_succ (n : ℕ) {s : S} (h : stop (M.choose s) = false) :
    M.picks stop (n + 1) s = s :: M.picks stop n (M.step (M.choose s) s) :=
  if_neg (Bool.eq_false_iff.1 h)

/-- Greedy decoding up to a stop token is a beginning of the plain one. -/
theorem greedyUntil_shortest (n : ℕ) (s : S) :
    ShortestUntil stop (M.greedy n s) (M.greedyUntil stop n s) := by
  induction n generalizing s with
  | zero => exact .nil
  | succ n ih =>
    rw [greedy, greedyUntil]
    split_ifs with h
    · exact .last _ h
    · exact .cons (Bool.not_eq_true _ ▸ h) (ih _)

variable {stop}

/-- Without stop tokens it is the plain one. -/
theorem greedyUntil_of_never (h : ∀ t, stop t = false) (n : ℕ) (s : S) :
    M.greedyUntil stop n s = M.greedy n s := by
  induction n generalizing s with
  | zero => rfl
  | succ n ih => rw [greedyUntil, greedy, h, if_neg Bool.false_ne_true, ih]

end Target

end NNIS
