import NNIS.Semantics.Fallible

/-!
# Loops that collect, and observers of them

A loop runs one round after the other, collects an element from each, and ends after a round that
says that it is the last one or when its budget is used up. An observer is shown every element
after its round, keeps a state of its own and may end the loop as well.

## Main definitions

* `Fallible.collect` — the loop.
* `Fallible.withLocals` — a state that is local to a computation.
* `Observer`, `Observer.after`, `Observer.FirstHalt`.
* `Fallible.Observed` — the rounds of a loop with an observer.

## Main results

* `Fallible.collect_take` — a beginning of what is collected is collected with a smaller budget.
* `Fallible.Spec.withLocals` — the rule of a local state.
* `Fallible.Observed.run_collect` — an observer that never ends the loop does not change it.
* `Fallible.Observed.run_collect_of_firstHalt` — an observer that ends the loop cuts its budget.
-/

set_option autoImplicit false

namespace NNIS

/-- An observer of elements: it answers whether to halt, and keeps a state. -/
abbrev Observer (κ α : Type) := κ → α → Bool × κ

namespace Observer

variable {κ α : Type} (f : Observer κ α)

/-- The state of an observer that has been shown some elements in order. -/
def after (k : κ) (l : List α) : κ := l.foldl (fun k a => (f k a).2) k

/-- The observer never halts. -/
def Continues : Prop := ∀ k a, (f k a).1 = false

/-- The observer halts at one element of a list and not before. -/
structure FirstHalt (k : κ) (l : List α) (i : ℕ) : Prop where
  before : ∀ j < i, ∀ a, l[j]? = some a → (f (f.after k (l.take j)) a).1 = false
  halt : ∀ a, l[i]? = some a → (f (f.after k (l.take i)) a).1 = true

variable {f}

theorem FirstHalt.tail {k : κ} {a : α} {l : List α} {i : ℕ}
    (h : f.FirstHalt k (a :: l) (i + 1)) : f.FirstHalt (f k a).2 l i where
  before j hj b hb := h.before (j + 1) (Nat.succ_lt_succ hj) b hb
  halt b hb := h.halt b hb

theorem FirstHalt.take {k : κ} {l : List α} {i : ℕ} (h : f.FirstHalt k l i) :
    f.FirstHalt k (l.take (i + 1)) i where
  before j hj a ha := by
    rw [List.getElem?_take_of_lt (Nat.lt_succ_of_lt hj)] at ha
    rw [List.take_take, Nat.min_eq_left (Nat.le_succ_of_le (Nat.le_of_lt hj))]
    exact h.before j hj a ha
  halt a ha := by
    rw [List.getElem?_take_of_lt (Nat.lt_succ_self i)] at ha
    rw [List.take_take, Nat.min_eq_left (Nat.le_succ i)]
    exact h.halt a ha

end Observer

namespace Fallible

variable {σ τ ε κ α : Type}

/-- Run rounds and collect an element from each, until one says that it is the last or the budget
is used up. -/
def collect (body : Fallible σ ε (α × Bool)) : ℕ → Fallible σ ε (List α)
  | 0 => pure []
  | n + 1 => do
    let (a, last) ← body
    if last then return [a]
    else do
      let rest ← collect body n
      return a :: rest

variable {body : Fallible σ ε (α × Bool)} {s s₁ s₂ : σ} {a : α} {l : List α} {n : ℕ}

theorem run_collect_last (h : body.run s = (.ok (a, true), s₁)) (n : ℕ) :
    (collect body (n + 1)).run s = (.ok [a], s₁) := by
  rw [collect, run_bind_ok h]
  rfl

theorem run_collect_error {e : ε} (h : body.run s = (.error e, s₁)) (n : ℕ) :
    (collect body (n + 1)).run s = (.error e, s₁) := by
  rw [collect, run_bind_error h]

theorem run_collect_next (h : body.run s = (.ok (a, false), s₁)) (n : ℕ) :
    (collect body (n + 1)).run s =
      (((collect body n).run s₁).1.map (a :: ·), ((collect body n).run s₁).2) := by
  rw [collect, run_bind_ok h]
  simp only [Bool.false_eq_true, ↓reduceIte]
  rw [run_bind]
  rcases (collect body n).run s₁ with ⟨_ | _, _⟩ <;> rfl

/-- What a loop that returned has done first. -/
theorem run_collect_succ_eq_ok (h : (collect body (n + 1)).run s = (.ok l, s₂)) :
    ∃ a last s₁, body.run s = (.ok (a, last), s₁) ∧
      (last = true ∧ l = [a] ∧ s₂ = s₁ ∨
        last = false ∧ ∃ rest, l = a :: rest ∧ (collect body n).run s₁ = (.ok rest, s₂)) := by
  rcases hbody : body.run s with ⟨e | ⟨a, last⟩, s₁⟩
  · rw [run_collect_error hbody] at h
    exact absurd (congrArg Prod.fst h) nofun
  · refine ⟨a, last, s₁, rfl, ?_⟩
    cases last with
    | true =>
      rw [run_collect_last hbody] at h
      obtain ⟨⟨⟩, rfl⟩ := Prod.mk.inj h
      exact .inl ⟨rfl, rfl, rfl⟩
    | false =>
      rw [run_collect_next hbody] at h
      rcases hrest : (collect body n).run s₁ with ⟨e | rest, s₃⟩
      · rw [hrest] at h
        exact absurd (congrArg Prod.fst h) nofun
      · rw [hrest] at h
        obtain ⟨⟨⟩, hs⟩ := Prod.mk.inj h
        exact .inr ⟨rfl, rest, rfl, congrArg _ hs⟩

theorem length_collect_le (h : (collect body n).run s = (.ok l, s₂)) : l.length ≤ n := by
  induction n generalizing s l with
  | zero =>
    obtain ⟨⟨⟩, -⟩ := Prod.mk.inj h
    exact Nat.le_refl 0
  | succ n ih =>
    obtain ⟨a, last, s₁, -, ⟨-, rfl, -⟩ | ⟨-, rest, rfl, hrest⟩⟩ := run_collect_succ_eq_ok h
    · exact Nat.succ_le_succ (Nat.zero_le n)
    · exact Nat.succ_le_succ (ih hrest)

/-- A beginning of what is collected is collected with a smaller budget. -/
theorem collect_take (h : (collect body n).run s = (.ok l, s₂)) {i : ℕ} (hi : i < l.length) :
    ∃ s₁, (collect body (i + 1)).run s = (.ok (l.take (i + 1)), s₁) := by
  induction n generalizing s l i with
  | zero =>
    obtain ⟨⟨⟩, -⟩ := Prod.mk.inj h
    exact absurd hi (Nat.not_lt_zero i)
  | succ n ih =>
    obtain ⟨a, last, s₁, hbody, ⟨rfl, rfl, rfl⟩ | ⟨rfl, rest, rfl, hrest⟩⟩ :=
      run_collect_succ_eq_ok h
    · obtain rfl := Nat.lt_one_iff.1 hi
      exact ⟨_, run_collect_last hbody 0⟩
    · cases i with
      | zero => exact ⟨_, run_collect_next hbody 0⟩
      | succ i =>
        obtain ⟨s₃, htake⟩ := ih hrest (Nat.lt_of_succ_lt_succ hi)
        refine ⟨s₃, ?_⟩
        rw [run_collect_next hbody, htake]
        rfl

/-! ### Local states -/

/-- Run a computation with a local state that starts with a given value. -/
def withLocals (m : Fallible (σ × τ) ε α) (t : τ) : Fallible σ ε (α × τ) :=
  ⟨fun s => ((m.run (s, t)).1.map (·, (m.run (s, t)).2.2), (m.run (s, t)).2.1)⟩

@[simp] theorem run_withLocals (m : Fallible (σ × τ) ε α) (t : τ) (s : σ) :
    (m.withLocals t).run s =
      ((m.run (s, t)).1.map (·, (m.run (s, t)).2.2), (m.run (s, t)).2.1) := rfl

/-- A triple of a computation with a local state, read on the rest of the state. -/
theorem Spec.withLocals {m : Fallible (σ × τ) ε α} {P : σ × τ → Prop} {Q : α → σ × τ → Prop}
    {E : ε → σ × τ → Prop} (h : Spec P m Q E) (t : τ) :
    Spec (fun s => P (s, t)) (m.withLocals t) (fun r s => Q r.1 (s, r.2))
      fun e s => ∃ t', E e (s, t') := by
  intro s hs
  have hp := h (s, t) hs
  rw [run_withLocals]
  rcases hr : m.run (s, t) with ⟨e | a, s', t'⟩ <;> rw [hr] at hp
  · exact ⟨t', hp⟩
  · exact hp

/-! ### Observers -/

/-- The rounds `observed` are the rounds `body`, each followed by showing its element to the
observer, on states that are put together from a state of the rounds and one of the observer. -/
def Observed (body : Fallible σ ε (α × Bool)) (f : Observer κ α) (combine : σ → κ → τ)
    (observed : Fallible τ ε (α × Bool)) : Prop :=
  ∀ s k, observed.run (combine s k) =
    match body.run s with
    | (.error e, s') => (.error e, combine s' k)
    | (.ok (a, last), s') => (.ok (a, last || (f k a).1), combine s' (f k a).2)

namespace Observed

variable {f : Observer κ α} {combine : σ → κ → τ} {observed : Fallible τ ε (α × Bool)} {k : κ}

theorem run_ok (h : Observed body f combine observed) {last : Bool}
    (hbody : body.run s = (.ok (a, last), s₁)) :
    observed.run (combine s k) = (.ok (a, last || (f k a).1), combine s₁ (f k a).2) := by
  rw [h s k, hbody]

theorem run_error (h : Observed body f combine observed) {e : ε}
    (hbody : body.run s = (.error e, s₁)) :
    observed.run (combine s k) = (.error e, combine s₁ k) := by
  rw [h s k, hbody]

/-- An observer that never halts does not change the loop, and is shown what is collected. -/
theorem run_collect (h : Observed body f combine observed) (hf : f.Continues) (n : ℕ) (s : σ)
    (k : κ) :
    ∃ k', (collect observed n).run (combine s k) =
        (((collect body n).run s).1, combine ((collect body n).run s).2 k') ∧
      ∀ l, ((collect body n).run s).1 = .ok l → k' = f.after k l := by
  induction n generalizing s k with
  | zero =>
    refine ⟨k, rfl, ?_⟩
    rintro _ ⟨⟩
    rfl
  | succ n ih =>
    rcases hbody : body.run s with ⟨e | ⟨a, last⟩, s₁⟩
    · refine ⟨k, ?_, ?_⟩
      · rw [run_collect_error hbody, run_collect_error (h.run_error hbody)]
      · rw [run_collect_error hbody]
        exact nofun
    · have hround := h.run_ok (k := k) hbody
      rw [hf k a, Bool.or_false] at hround
      cases last with
      | true =>
        refine ⟨(f k a).2, ?_, ?_⟩
        · rw [run_collect_last hbody, run_collect_last hround]
        · rw [run_collect_last hbody]
          rintro _ ⟨⟩
          rfl
      | false =>
        obtain ⟨k', hrun, hafter⟩ := ih s₁ (f k a).2
        refine ⟨k', ?_, ?_⟩
        · rw [run_collect_next hbody, run_collect_next hround, hrun]
        · rw [run_collect_next hbody]
          intro l hl
          rcases hrest : ((collect body n).run s₁).1 with e | rest
          · rw [hrest] at hl
            exact absurd hl nofun
          · rw [hrest] at hl
            obtain rfl := Except.ok.inj hl
            exact hafter rest hrest

/-- An observer that halts at the last element of a run with a smaller budget ends the loop
there. -/
theorem run_collect_of_firstHalt (h : Observed body f combine observed) {i : ℕ}
    (hrun : (collect body (i + 1)).run s = (.ok l, s₂)) (hlength : l.length = i + 1)
    (hhalt : f.FirstHalt k l i) (hn : i < n) :
    (collect observed n).run (combine s k) = (.ok l, combine s₂ (f.after k l)) := by
  induction i generalizing s l k n with
  | zero =>
    obtain ⟨n, rfl⟩ := Nat.exists_eq_succ_of_ne_zero (Nat.ne_of_gt hn)
    obtain ⟨a, rfl⟩ := List.length_eq_one_iff.1 hlength
    obtain ⟨b, last, s₁, hbody, hcase⟩ := run_collect_succ_eq_ok hrun
    obtain ⟨rfl, rfl⟩ : a = b ∧ s₂ = s₁ := by
      rcases hcase with ⟨-, hl, hs⟩ | ⟨-, rest, hl, hrest⟩
      · exact ⟨List.head_eq_of_cons_eq hl, hs⟩
      · exact ⟨List.head_eq_of_cons_eq hl, (Prod.mk.inj hrest).2.symm⟩
    have hround := h.run_ok (k := k) hbody
    have hanswer : (f k a).1 = true := hhalt.halt a rfl
    rw [hanswer, Bool.or_true] at hround
    exact run_collect_last hround n
  | succ i ih =>
    obtain ⟨n, rfl⟩ := Nat.exists_eq_succ_of_ne_zero (Nat.ne_of_gt (Nat.zero_lt_of_lt hn))
    obtain ⟨a, last, s₁, hbody, ⟨-, rfl, -⟩ | ⟨rfl, rest, rfl, hrest⟩⟩ :=
      run_collect_succ_eq_ok hrun
    · exact absurd hlength (by simp)
    · have hround := h.run_ok (k := k) hbody
      have hanswer : (f k a).1 = false := hhalt.before 0 (Nat.succ_pos i) a rfl
      rw [hanswer, Bool.or_false] at hround
      rw [run_collect_next hround, ih hrest (Nat.succ.inj hlength) hhalt.tail
        (Nat.lt_of_succ_lt_succ hn)]
      rfl

end Observed

end Fallible

end NNIS
