import Mathlib.Data.Nat.Notation

/-!
# Computations that may fail and keep their state

A *fallible* computation runs from a state to a result and a new state; the result is a value or
an error, and the state reached is kept in both cases. This is how a method on a mutable receiver
behaves: an early return leaves the receiver as the completed statements left it.

`Fallible.Spec P m Q E` is the triple of such a computation: from a state satisfying `P`, either
`m` returns a value `a` in a state satisfying `Q a`, or it fails with an error `e` in a state
satisfying `E e`. Every computation ends, so a triple is a total statement. The rules below follow
the constructors of computations; a loop is treated by an invariant indexed by the number of
completed rounds (`Fallible.Spec.foldRange`), by the elements still to be visited
(`Fallible.Spec.foldEach`) or by the rounds that are left (`Fallible.Spec.loop`).

## Main definitions

* `Fallible`, `Fallible.run`.
* `Fallible.get`, `Fallible.modify`, `Fallible.fail`, `Fallible.ofExcept`, `Fallible.attempt`,
  `Fallible.mapError`, `Fallible.zoom`, `Fallible.foldRange`, `Fallible.foldEach`.
* `Fallible.Spec` — triples with a postcondition for values and one for errors.

## Main results

* `Fallible.run_bind_ok`, `Fallible.run_bind_error` — execution of a sequence.
* `Fallible.run_forRange`, `Fallible.run_loop` — execution of a loop through known states.
* `Fallible.Spec.bind`, `Fallible.Spec.attempt`, `Fallible.Spec.zoom`, `Fallible.Spec.foldRange`,
  `Fallible.Spec.foldEach`, `Fallible.Spec.loop` — the rules of the triple.
-/

set_option autoImplicit false

namespace NNIS

universe u v

/-- A computation from a state to a result and a new state. The state at the point of failure is
part of the outcome. -/
structure Fallible (σ ε α : Type u) where
  /-- The outcome from a given state. -/
  run : σ → Except ε α × σ

namespace Fallible

variable {σ τ ε α β : Type u}

theorem ext {m m' : Fallible σ ε α} (h : ∀ s, m.run s = m'.run s) : m = m' := by
  cases m
  cases m'
  simpa only [mk.injEq] using funext h

instance : Monad (Fallible σ ε) where
  pure a := ⟨fun s => (.ok a, s)⟩
  bind m f := ⟨fun s =>
    match m.run s with
    | (.ok a, s') => (f a).run s'
    | (.error e, s') => (.error e, s')⟩

@[simp] theorem run_pure (a : α) (s : σ) : (pure a : Fallible σ ε α).run s = (.ok a, s) := rfl

theorem run_bind (m : Fallible σ ε α) (f : α → Fallible σ ε β) (s : σ) :
    (m >>= f).run s =
      match m.run s with
      | (.ok a, s') => (f a).run s'
      | (.error e, s') => (.error e, s') := rfl

theorem run_bind_ok {m : Fallible σ ε α} {s s' : σ} {a : α} (h : m.run s = (.ok a, s'))
    (f : α → Fallible σ ε β) : (m >>= f).run s = (f a).run s' := by
  simp only [run_bind, h]

theorem run_bind_error {m : Fallible σ ε α} {s s' : σ} {e : ε} (h : m.run s = (.error e, s'))
    (f : α → Fallible σ ε β) : (m >>= f).run s = (.error e, s') := by
  simp only [run_bind, h]

/-- A sequence that returns is made of parts that return. -/
theorem of_run_bind_ok {m : Fallible σ ε α} {f : α → Fallible σ ε β} {s s' : σ} {b : β}
    (h : (m >>= f).run s = (.ok b, s')) :
    ∃ a s₁, m.run s = (.ok a, s₁) ∧ (f a).run s₁ = (.ok b, s') := by
  rw [run_bind] at h
  rcases hm : m.run s with ⟨e | a, s₁⟩
  · rw [hm] at h
    cases h
  · rw [hm] at h
    exact ⟨a, s₁, rfl, h⟩

instance : LawfulMonad (Fallible σ ε) :=
  LawfulMonad.mk' (Fallible σ ε)
    (fun m => Fallible.ext fun s => by
      change (m >>= pure).run s = m.run s
      rw [run_bind]
      rcases m.run s with ⟨_ | _, _⟩ <;> rfl)
    (fun _ _ => rfl)
    (fun m f g => Fallible.ext fun s => by
      simp only [run_bind]
      rcases m.run s with ⟨_ | _, _⟩ <;> rfl)

/-! ### Primitive computations -/

/-- The current state. -/
def get : Fallible σ ε σ := ⟨fun s => (.ok s, s)⟩

/-- Replace the current state. -/
def modify (f : σ → σ) : Fallible σ ε PUnit := ⟨fun s => (.ok ⟨⟩, f s)⟩

/-- Return an error. -/
def fail (e : ε) : Fallible σ ε α := ⟨fun s => (.error e, s)⟩

/-- A result computed without touching the state. -/
def ofExcept (r : Except ε α) : Fallible σ ε α := ⟨fun s => (r, s)⟩

/-- Run a computation and hand its result, value or error, to the rest of the program. -/
def attempt (m : Fallible σ ε α) : Fallible σ ε (Except ε α) :=
  ⟨fun s => (.ok (m.run s).1, (m.run s).2)⟩

/-- Run a computation and rewrite its error. -/
def mapError {ε' : Type u} (f : ε → ε') (m : Fallible σ ε α) : Fallible σ ε' α :=
  ⟨fun s => ((m.run s).1.mapError f, (m.run s).2)⟩

/-- Run a computation on a part of the state. -/
def zoom (view : σ → τ) (update : τ → σ → σ) (m : Fallible τ ε α) : Fallible σ ε α :=
  ⟨fun s => ((m.run (view s)).1, update (m.run (view s)).2 s)⟩

/-- Run `body 0`, `body 1`, …, `body (n - 1)` in this order, handing a value from each round to
the next and stopping at the first error. -/
def foldRange : (n : ℕ) → α → (ℕ → α → Fallible σ ε α) → Fallible σ ε α
  | 0, a, _ => pure a
  | n + 1, a, body => do
      let b ← foldRange n a body
      body n b

/-- Run `body` on the elements of a list in order, handing a value from each round to the next and
stopping at the first error. -/
def foldEach {ι : Type v} : List ι → α → (ι → α → Fallible σ ε α) → Fallible σ ε α
  | [], a, _ => pure a
  | x :: l, a, body => do
      let b ← body x a
      foldEach l b body

/-- Repeat `body`, handing a value from each round to the next, until a round hands out a result.
After `n` rounds without one the loop stops with the given error. -/
def loop (exhausted : ε) : (n : ℕ) → β → (β → Fallible σ ε (β ⊕ α)) → Fallible σ ε α
  | 0, _, _ => fail exhausted
  | n + 1, b, body => do
      match ← body b with
      | .inl b' => loop exhausted n b' body
      | .inr a => pure a

/-- `foldRange` without a value. -/
def forRange (n : ℕ) (body : ℕ → Fallible σ ε PUnit) : Fallible σ ε PUnit :=
  foldRange n ⟨⟩ fun i _ => body i

/-- `foldEach` without a value. -/
def forEach {ι : Type v} (l : List ι) (body : ι → Fallible σ ε PUnit) : Fallible σ ε PUnit :=
  foldEach l ⟨⟩ fun x _ => body x

@[simp] theorem run_get (s : σ) : (get : Fallible σ ε σ).run s = (.ok s, s) := rfl

@[simp] theorem run_modify (f : σ → σ) (s : σ) :
    (modify f : Fallible σ ε PUnit).run s = (.ok ⟨⟩, f s) := rfl

@[simp] theorem run_ofExcept (r : Except ε α) (s : σ) :
    (ofExcept r : Fallible σ ε α).run s = (r, s) := rfl

@[simp] theorem ofExcept_ok_bind (a : α) (f : α → Fallible σ ε β) :
    (ofExcept (.ok a) >>= f) = f a := rfl

@[simp] theorem run_attempt (m : Fallible σ ε α) (s : σ) :
    m.attempt.run s = (.ok (m.run s).1, (m.run s).2) := rfl

@[simp] theorem run_mapError {ε' : Type u} (f : ε → ε') (m : Fallible σ ε α) (s : σ) :
    (m.mapError f).run s = ((m.run s).1.mapError f, (m.run s).2) := rfl

@[simp] theorem run_zoom (view : σ → τ) (update : τ → σ → σ) (m : Fallible τ ε α) (s : σ) :
    (m.zoom view update).run s = ((m.run (view s)).1, update (m.run (view s)).2 s) := rfl

/-! ### Loops through known states -/

/-- A counted loop each round of which goes from one of the given states to the next. -/
theorem run_forRange {n : ℕ} {body : ℕ → Fallible σ ε PUnit} (S : ℕ → σ)
    (h : ∀ i < n, (body i).run (S i) = (.ok ⟨⟩, S (i + 1))) :
    (forRange n body).run (S 0) = (.ok ⟨⟩, S n) := by
  rw [forRange]
  induction n with
  | zero => rfl
  | succ n ih =>
    rw [foldRange, run_bind_ok (ih fun i hi => h i (Nat.lt_succ_of_lt hi))]
    exact h n (Nat.lt_succ_self n)

/-- A loop each round of which goes from one of the given states to the next and whose last round
hands out a result. -/
theorem run_loop (n : ℕ) (exhausted : ε) {body : β → Fallible σ ε (β ⊕ α)} (S : ℕ → σ)
    (b : ℕ → β) {a : α} {s : σ}
    (h : ∀ i < n, (body (b i)).run (S i) = (.ok (.inl (b (i + 1))), S (i + 1)))
    (hlast : (body (b n)).run (S n) = (.ok (.inr a), s)) {fuel : ℕ} (hfuel : n < fuel) :
    (loop exhausted fuel (b 0) body).run (S 0) = (.ok a, s) := by
  induction n generalizing S b fuel with
  | zero =>
    obtain ⟨fuel, rfl⟩ := Nat.exists_eq_succ_of_ne_zero (Nat.ne_of_gt hfuel)
    rw [loop, run_bind_ok hlast]
    rfl
  | succ n ih =>
    obtain ⟨fuel, rfl⟩ := Nat.exists_eq_succ_of_ne_zero (Nat.ne_of_gt (Nat.zero_lt_of_lt hfuel))
    rw [loop, run_bind_ok (h 0 (Nat.succ_pos n))]
    exact ih (fun i => S (i + 1)) (fun i => b (i + 1)) (fun i hi => h (i + 1) (by omega)) hlast
      (by omega)

/-! ### Triples -/

/-- The two postconditions of a triple, read on an outcome. -/
def Post (Q : α → σ → Prop) (E : ε → σ → Prop) : Except ε α × σ → Prop
  | (.ok a, s) => Q a s
  | (.error e, s) => E e s

theorem Post.imp {Q Q' : α → σ → Prop} {E E' : ε → σ → Prop} (hQ : ∀ a s, Q a s → Q' a s)
    (hE : ∀ e s, E e s → E' e s) {r : Except ε α × σ} (h : Post Q E r) : Post Q' E' r := by
  match r, h with
  | (.ok a, s), h => exact hQ a s h
  | (.error e, s), h => exact hE e s h

/-- From a state satisfying `P`, the computation returns in a state satisfying `Q`, or fails in a
state satisfying `E`. -/
def Spec (P : σ → Prop) (m : Fallible σ ε α) (Q : α → σ → Prop) (E : ε → σ → Prop) : Prop :=
  ∀ s, P s → Post Q E (m.run s)

namespace Spec

variable {P P' : σ → Prop} {Q Q' : α → σ → Prop} {E E' : ε → σ → Prop}

theorem ok {m : Fallible σ ε α} (h : Spec P m Q E) {s s' : σ} {a : α} (hs : P s)
    (hm : m.run s = (.ok a, s')) : Q a s' := by
  have hp := h s hs
  rwa [hm] at hp

theorem error {m : Fallible σ ε α} (h : Spec P m Q E) {s s' : σ} {e : ε} (hs : P s)
    (hm : m.run s = (.error e, s')) : E e s' := by
  have hp := h s hs
  rwa [hm] at hp

/-- A computation that cannot fail returns. -/
theorem exists_run {m : Fallible σ ε α} (h : Spec P m Q fun _ _ => False) {s : σ} (hs : P s) :
    ∃ a s', m.run s = (.ok a, s') ∧ Q a s' := by
  have hp := h s hs
  rcases hr : m.run s with ⟨e | a, s'⟩ <;> rw [hr] at hp
  · exact absurd hp id
  · exact ⟨a, s', rfl, hp⟩

/-- Strengthen the precondition and weaken both postconditions. -/
theorem conseq {m : Fallible σ ε α} (h : Spec P m Q E) (hP : ∀ s, P' s → P s)
    (hQ : ∀ a s, Q a s → Q' a s) (hE : ∀ e s, E e s → E' e s) : Spec P' m Q' E' :=
  fun s hs => (h s (hP s hs)).imp hQ hE

theorem pure (a : α) (h : ∀ s, P s → Q a s) : Spec P (Pure.pure a : Fallible σ ε α) Q E :=
  fun s hs => h s hs

theorem fail (e : ε) (h : ∀ s, P s → E e s) : Spec P (Fallible.fail e : Fallible σ ε α) Q E :=
  fun s hs => h s hs

theorem modify (f : σ → σ) {Q : PUnit → σ → Prop} (h : ∀ s, P s → Q ⟨⟩ (f s)) :
    Spec P (Fallible.modify f) Q E :=
  fun s hs => h s hs

theorem get {Q : σ → σ → Prop} (h : ∀ s, P s → Q s s) : Spec P Fallible.get Q E :=
  fun s hs => h s hs

theorem ofExcept {r : Except ε α} (hQ : ∀ a, r = .ok a → ∀ s, P s → Q a s)
    (hE : ∀ e, r = .error e → ∀ s, P s → E e s) : Spec P (Fallible.ofExcept r) Q E := by
  intro s hs
  cases hr : r with
  | error e => exact hE e hr s hs
  | ok a => exact hQ a hr s hs

theorem bind {m : Fallible σ ε α} {f : α → Fallible σ ε β} {R : α → σ → Prop}
    {Q : β → σ → Prop} (hm : Spec P m R E) (hf : ∀ a, Spec (R a) (f a) Q E) :
    Spec P (m >>= f) Q E := by
  intro s hs
  have hp := hm s hs
  rcases hr : m.run s with ⟨e | a, s'⟩
  · rw [hr] at hp
    rw [run_bind_error hr]
    exact hp
  · rw [hr] at hp
    rw [run_bind_ok hr]
    exact hf a s' hp

/-- The condition on what a computation returned. -/
def Returned (Q : α → σ → Prop) (E : ε → σ → Prop) : Except ε α → σ → Prop
  | .ok a => Q a
  | .error e => E e

theorem attempt {m : Fallible σ ε α} {Q : Except ε α → σ → Prop}
    (h : Spec P m (fun a => Q (.ok a)) fun e => Q (.error e)) : Spec P m.attempt Q E := by
  intro s hs
  have hp := h s hs
  rw [run_attempt]
  rcases hr : m.run s with ⟨e | a, s'⟩ <;> rw [hr] at hp <;> exact hp

theorem mapError {ε' : Type u} {m : Fallible σ ε α} {f : ε → ε'} {E : ε' → σ → Prop}
    (h : Spec P m Q fun e => E (f e)) : Spec P (m.mapError f) Q E := by
  intro s hs
  have hp := h s hs
  rw [run_mapError]
  rcases hr : m.run s with ⟨e | a, s'⟩ <;> rw [hr] at hp <;> exact hp

/-- A triple of a computation on a part of the state, read on the whole state. -/
theorem zoom {view : σ → τ} {update : τ → σ → σ} {m : Fallible τ ε α} (s₀ : σ)
    {P : τ → Prop} {Q : α → τ → Prop} {E : ε → τ → Prop} (h : Spec P m Q E) :
    Spec (fun s => s = s₀ ∧ P (view s)) (m.zoom view update)
      (fun a s => ∃ t, Q a t ∧ s = update t s₀) fun e s => ∃ t, E e t ∧ s = update t s₀ := by
  rintro s ⟨rfl, hs⟩
  have hp := h (view s) hs
  rw [run_zoom]
  rcases hr : m.run (view s) with ⟨e | a, t⟩ <;> rw [hr] at hp <;> exact ⟨t, hp, rfl⟩

/-- Reading the state hands it to the rest of the program. -/
theorem get_bind {s₀ : σ} {f : σ → Fallible σ ε β} {Q : β → σ → Prop}
    (h : Spec (fun s => s = s₀) (f s₀) Q E) : Spec (fun s => s = s₀) (Fallible.get >>= f) Q E := by
  rintro s rfl
  exact h s rfl

/-- A triple is a statement about each initial state. -/
theorem of_forall {m : Fallible σ ε α} (h : ∀ s₀, P s₀ → Spec (fun s => s = s₀) m Q E) :
    Spec P m Q E :=
  fun s hs => h s hs s rfl

/-- A counted loop keeps an invariant indexed by the number of completed rounds. -/
theorem foldRange {body : ℕ → α → Fallible σ ε α} (I : ℕ → α → σ → Prop) (n : ℕ) (a : α)
    (h : ∀ i < n, ∀ b, Spec (I i b) (body i b) (I (i + 1)) E) :
    Spec (I 0 a) (Fallible.foldRange n a body) (I n) E := by
  induction n with
  | zero => exact Spec.pure _ fun _ hs => hs
  | succ n ih => exact (ih fun i hi => h i (by omega)).bind fun b => h n (by omega) b

/-- A loop over a list keeps an invariant indexed by the elements still to be visited. -/
theorem foldEach {ι : Type v} {body : ι → α → Fallible σ ε α} (I : List ι → α → σ → Prop)
    (l : List ι) (a : α) (h : ∀ x rest b, Spec (I (x :: rest) b) (body x b) (I rest) E) :
    Spec (I l a) (Fallible.foldEach l a body) (I []) E := by
  induction l generalizing a with
  | nil => exact Spec.pure _ fun _ hs => hs
  | cons x l ih => exact (h x l a).bind fun b => ih b

/-- A loop keeps an invariant indexed by the rounds that are left; an invariant that excludes that
none is left excludes that the loop runs out of them. -/
theorem loop {exhausted : ε} {body : β → Fallible σ ε (β ⊕ α)} (I : ℕ → β → σ → Prop)
    (hzero : ∀ b s, ¬ I 0 b s)
    (h : ∀ n b, Spec (I (n + 1) b) (body b) (fun r s => r.elim (fun b' => I n b' s) (Q · s)) E)
    (n : ℕ) (b : β) : Spec (I n b) (Fallible.loop exhausted n b body) Q E := by
  induction n generalizing b with
  | zero => exact fun s hs => absurd hs (hzero b s)
  | succ n ih =>
    refine (h n b).bind fun r => ?_
    cases r with
    | inl b' => exact ih b'
    | inr a => exact Spec.pure a fun _ hs => hs

theorem forRange {body : ℕ → Fallible σ ε PUnit} (I : ℕ → σ → Prop) (n : ℕ)
    (h : ∀ i < n, Spec (I i) (body i) (fun _ => I (i + 1)) E) :
    Spec (I 0) (Fallible.forRange n body) (fun _ => I n) E := by
  rw [Fallible.forRange]
  exact foldRange (fun i _ => I i) n PUnit.unit fun i hi _ => h i hi

theorem forEach {ι : Type v} {body : ι → Fallible σ ε PUnit} (I : List ι → σ → Prop)
    (l : List ι) (h : ∀ x rest, Spec (I (x :: rest)) (body x) (fun _ => I rest) E) :
    Spec (I l) (Fallible.forEach l body) (fun _ => I []) E := by
  rw [Fallible.forEach]
  exact foldEach (fun rest _ => I rest) l PUnit.unit fun x rest _ => h x rest

end Spec

end Fallible

end NNIS
