import Mathlib.Data.Nat.Notation

/-!
# Answers of a machine to a list of calls

A machine answers each call and goes to a new state, also when the answer is an error.

## Main definitions

* `replies` — the answers to a list of calls, and the state after it.
* `EachCall` — every call meets a condition on the state before it.

## Main results

* `replies_append` — calls one after the other.
* `replies_invariant`, `EachCall.invariant` — what every call keeps.
* `replies_eq_of_simulation` — a machine whose states are read as states of another.
-/

set_option autoImplicit false

namespace NNIS

universe u v w x

variable {κ : Type u} {σ : Type v} {τ : Type w} {ρ : Type x}

/-- The answers to a list of calls, and the state after it. -/
def replies (step : κ → σ → ρ × σ) : List κ → σ → List ρ × σ
  | [], s => ([], s)
  | c :: calls, s =>
    let answer := step c s
    let rest := replies step calls answer.2
    (answer.1 :: rest.1, rest.2)

theorem replies_cons (step : κ → σ → ρ × σ) (c : κ) (calls : List κ) (s : σ) :
    replies step (c :: calls) s =
      ((step c s).1 :: (replies step calls (step c s).2).1,
        (replies step calls (step c s).2).2) := rfl

/-- Calls one after the other. -/
theorem replies_append (step : κ → σ → ρ × σ) (calls calls' : List κ) (s : σ) :
    replies step (calls ++ calls') s =
      ((replies step calls s).1 ++ (replies step calls' (replies step calls s).2).1,
        (replies step calls' (replies step calls s).2).2) := by
  induction calls generalizing s with
  | nil => rfl
  | cons c calls ih => rw [List.cons_append, replies_cons, ih, replies_cons, List.cons_append]

/-- What every call keeps holds after a list of calls. -/
theorem replies_invariant {step : κ → σ → ρ × σ} {I : σ → Prop}
    (h : ∀ c s, I s → I (step c s).2) (calls : List κ) {s : σ} (hs : I s) :
    I (replies step calls s).2 := by
  induction calls generalizing s with
  | nil => exact hs
  | cons c calls ih => exact ih (h c s hs)

/-- Every call of a list meets a condition on the state before it. -/
def EachCall (P : κ → σ → Prop) (step : κ → σ → ρ × σ) : List κ → σ → Prop
  | [], _ => True
  | c :: calls, s => P c s ∧ EachCall P step calls (step c s).2

theorem EachCall.of_append {P : κ → σ → Prop} {step : κ → σ → ρ × σ} {calls calls' : List κ} {s : σ}
    (h : EachCall P step (calls ++ calls') s) : EachCall P step calls s := by
  induction calls generalizing s with
  | nil => trivial
  | cons c calls ih => exact ⟨h.1, ih h.2⟩

theorem EachCall.of_append_right {P : κ → σ → Prop} {step : κ → σ → ρ × σ} {calls calls' : List κ}
    {s : σ} (h : EachCall P step (calls ++ calls') s) :
    EachCall P step calls' (replies step calls s).2 := by
  induction calls generalizing s with
  | nil => exact h
  | cons c calls ih => exact ih h.2

/-- What every call keeps that meets a condition. -/
theorem EachCall.invariant {P : κ → σ → Prop} {step : κ → σ → ρ × σ} {I : σ → Prop}
    (h : ∀ c s, P c s → I s → I (step c s).2) {calls : List κ} {s : σ}
    (hcalls : EachCall P step calls s) (hs : I s) : I (replies step calls s).2 := by
  induction calls generalizing s with
  | nil => exact hs
  | cons c calls ih => exact ih hcalls.2 (h c s hcalls.1 hs)

/-- A machine whose states are read as states of another gives the other's answers, and its states
are read as the other's states. -/
theorem replies_eq_of_simulation {step : κ → σ → ρ × σ} {step' : κ → τ → ρ × τ} {read : σ → τ}
    (h : ∀ c s, step' c (read s) = ((step c s).1, read (step c s).2)) (calls : List κ) (s : σ) :
    replies step' calls (read s) = ((replies step calls s).1, read (replies step calls s).2) := by
  induction calls generalizing s with
  | nil => rfl
  | cons c calls ih => rw [replies_cons, replies_cons, h, ih]

end NNIS
