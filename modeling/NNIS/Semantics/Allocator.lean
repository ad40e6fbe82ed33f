import NNIS.Semantics.Fallible
import NNIS.Semantics.Outcome

/-!
# The process allocator

Reservations of host memory are answered by the process allocator, which may refuse any of them. A
program that reserves memory runs on the answers still to come.

## Main definitions

* `Allocator`, `Allocator.rest`, `Allocator.granting`, `tryReserveExact`.
* `Surroundings` — what a program runs on that may refuse what it asks for.
* `Allocator.Grants` — every reservation is granted.
* `Delivers` — a computation that fails only for what its surroundings refuse.

## Main results

* `Delivers.run_cases` — the run of such a computation.
-/

set_option autoImplicit false

namespace NNIS

/-- The answers of the process allocator to the reservations still to come: a capacity of at
least the requested number of elements, or the text of a refusal. -/
structure Allocator where
  answer : ℕ → ℕ → Except String ℕ
  le_answer : ∀ k size capacity, answer k size = .ok capacity → size ≤ capacity

namespace Allocator

/-- The answers after the next one. -/
def rest (host : Allocator) : Allocator where
  answer k := host.answer (k + 1)
  le_answer k := host.le_answer (k + 1)

/-- An allocator that grants every reservation exactly. -/
def granting : Allocator where
  answer _ size := .ok size
  le_answer _ _ _ h := Nat.le_of_eq (Except.ok.inj h)

end Allocator

/-- The allocator grants every reservation. -/
def Allocator.Grants (host : Allocator) : Prop :=
  ∀ k size, ∃ capacity, host.answer k size = .ok capacity

/-- What a program runs on, which may refuse what the program asks for. -/
class Surroundings (σ : Type) where
  Grants : σ → Prop

instance : Surroundings Allocator := ⟨Allocator.Grants⟩

theorem Allocator.Grants.rest {host : Allocator} (h : host.Grants) : host.rest.Grants :=
  fun k size => h (k + 1) size

/-- Reserve capacity for a number of elements, without initialization. -/
def tryReserveExact {ε : Type} (size : ℕ) : Fallible Allocator (Stop ε) (Except String ℕ) :=
  ⟨fun host => (.ok (host.answer 0 size), host.rest)⟩

/-! ### Computations that fail for what is refused only -/

/-- The computation returns a value that meets the condition. It may fail instead, with an error
that meets the other one, unless `granted` says that its surroundings grant everything. -/
def Delivers {σ ε α : Type} [Surroundings σ] (granted : Prop) (E : ε → Prop)
    (m : Fallible σ ε α) (Q : α → Prop) : Prop :=
  Fallible.Spec (fun s => granted → Surroundings.Grants s) m
    (fun a s => Q a ∧ (granted → Surroundings.Grants s)) fun e _ => E e ∧ ¬ granted

namespace Delivers

variable {σ ε ε' α β : Type} [Surroundings σ] {granted : Prop} {E : ε → Prop} {E' : ε' → Prop}
  {m : Fallible σ ε α} {Q Q' : α → Prop}

theorem pure {a : α} (h : Q a) : Delivers granted E (Pure.pure a : Fallible σ ε α) Q :=
  Fallible.Spec.pure a fun _ hs => ⟨h, hs⟩

theorem ofExcept {a : α} {r : Except ε α} (hr : r = .ok a) (h : Q a) :
    Delivers granted E (.ofExcept r : Fallible σ ε α) Q := by
  subst hr
  exact Delivers.pure h

theorem mono (h : Delivers granted E m Q) (hQ : ∀ a, Q a → Q' a) : Delivers granted E m Q' :=
  h.conseq (fun _ hs => hs) (fun a _ ha => ⟨hQ a ha.1, ha.2⟩) fun _ _ he => he

theorem bind {R : β → Prop} {f : α → Fallible σ ε β} (h : Delivers granted E m Q)
    (hf : ∀ a, Q a → Delivers granted E (f a) R) : Delivers granted E (m >>= f) R :=
  Fallible.Spec.bind h fun a => Fallible.Spec.of_forall fun _ hs =>
    (hf a hs.1).conseq (fun _ h => h ▸ hs.2) (fun _ _ hb => hb) fun _ _ he => he

theorem mapError {f : ε → ε'} (h : Delivers granted E m Q) (hf : ∀ e, E e → E' (f e)) :
    Delivers granted E' (m.mapError f) Q :=
  Fallible.Spec.mapError (h.conseq (fun _ hs => hs) (fun _ _ ha => ha)
    fun e _ he => ⟨hf e he.1, he.2⟩)

/-- From surroundings that grant everything if `granted` says so, the computation returns or is
refused something. -/
theorem run_cases (h : Delivers granted E m Q) {s : σ} (hs : granted → Surroundings.Grants s) :
    (∃ a s', m.run s = (.ok a, s') ∧ Q a ∧ (granted → Surroundings.Grants s')) ∨
      ∃ e s', m.run s = (.error e, s') ∧ E e ∧ ¬ granted := by
  have hp := h s hs
  rcases hr : m.run s with ⟨e | a, s'⟩ <;> rw [hr] at hp
  · exact .inr ⟨e, s', rfl, hp⟩
  · exact .inl ⟨a, s', rfl, hp⟩

end Delivers

end NNIS
