import NNIS.Semantics.Fallible

/-!
# Computations that write a component at their end

A computation on a pair of states may be run on the first component alone, with the second one as an
argument and as a part of its value. It *stages* the second component when a failure leaves that one
as it was; what holds of the values that are returned then holds of the component that is written.

## Main definitions

* `Fallible.onFirst`, `Fallible.second` — the first component at work, the second one read.
* `Fallible.returning` — the computation that returns the second component as written.
* `Fallible.Stages` — a failure leaves the second component as it was.

## Main results

* `Fallible.returning_second_bind`, `Fallible.returning_ofExcept_bind`,
  `Fallible.returning_onFirst_bind` — what comes before the write.
* `Fallible.Stages.post` — a triple of the computation that returns, read on the pair.
-/

set_option autoImplicit false

namespace NNIS

namespace Fallible

universe u

variable {σ τ ε α β : Type u}

/-- A computation on the first component of the state. -/
def onFirst (m : Fallible σ ε α) : Fallible (σ × τ) ε α := m.zoom Prod.fst fun s t => (s, t.2)

@[simp] theorem run_onFirst (m : Fallible σ ε α) (s : σ × τ) :
    (m.onFirst : Fallible (σ × τ) ε α).run s = ((m.run s.1).1, ((m.run s.1).2, s.2)) := rfl

/-- The second component of the state. -/
def second : Fallible (σ × τ) ε τ := ⟨fun s => (.ok s.2, s)⟩

/-- The computation on the first component that returns the second one as it has been written. -/
def returning (m : Fallible (σ × τ) ε α) (t : τ) : Fallible σ ε (τ × α) :=
  ⟨fun s => ((m.run (s, t)).1.map fun a => ((m.run (s, t)).2.2, a), (m.run (s, t)).2.1)⟩

theorem run_returning (m : Fallible (σ × τ) ε α) (s : σ × τ) :
    (m.returning s.2).run s.1 =
      ((m.run s).1.map fun a => ((m.run s).2.2, a), (m.run s).2.1) := rfl

theorem returning_second_bind (m : τ → Fallible (σ × τ) ε α) (t : τ) :
    (second >>= m).returning t = (m t).returning t := rfl

theorem returning_ofExcept_bind (r : Except ε β) (m : β → Fallible (σ × τ) ε α) (t : τ) :
    (ofExcept r >>= m).returning t = ofExcept r >>= fun b => (m b).returning t := by
  cases r with
  | error e => rfl
  | ok b => rfl

theorem returning_onFirst_bind (g : Fallible σ ε β) (m : β → Fallible (σ × τ) ε α) (t : τ) :
    (g.onFirst >>= m).returning t = g >>= fun b => (m b).returning t := by
  refine Fallible.ext fun s => ?_
  rw [run_returning _ (s, t), run_bind, run_bind, run_onFirst]
  rcases g.run s with ⟨e | b, s'⟩
  · rfl
  · rfl

/-- From a state, a failure leaves the second component as it was. -/
def Stages (s : σ × τ) (m : Fallible (σ × τ) ε α) : Prop :=
  ∀ e s', m.run s = (.error e, s') → s'.2 = s.2

namespace Stages

variable {s : σ × τ}

theorem second_bind {m : τ → Fallible (σ × τ) ε α} (hm : Stages s (m s.2)) :
    Stages s (second >>= m) := hm

theorem ofExcept_bind {r : Except ε β} {m : β → Fallible (σ × τ) ε α}
    (hm : ∀ b, r = .ok b → Stages s (m b)) : Stages s (ofExcept r >>= m) := by
  cases r with
  | error e =>
    rintro _ _ h
    rw [← (Prod.mk.inj h).2]
  | ok b => exact hm b rfl

theorem onFirst_bind {g : Fallible σ ε β} {m : β → Fallible (σ × τ) ε α}
    (hm : ∀ b s', Stages (s', s.2) (m b)) : Stages s (g.onFirst >>= m) := by
  intro e s' h
  rw [run_bind, run_onFirst] at h
  rcases hg : g.run s.1 with ⟨e' | b, s''⟩ <;> rw [hg] at h
  · rw [← (Prod.mk.inj h).2]
  · exact hm b s'' e s' h

/-- What holds of the computation that returns holds on the pair, and a failure leaves the second
component unchanged. -/
theorem post {m : Fallible (σ × τ) ε α} (hm : Stages s m) {Q : τ × α → Prop} {E : ε → Prop}
    (hspec : Spec (fun _ => True) (m.returning s.2) (fun a _ => Q a) fun e _ => E e) :
    Post (fun a t => Q (t.2, a)) (fun e t => E e ∧ t.2 = s.2) (m.run s) := by
  have hpost := hspec s.1 trivial
  rw [run_returning] at hpost
  rcases hr : m.run s with ⟨e | a, s'⟩ <;> rw [hr] at hpost
  · exact ⟨hpost, hm e s' hr⟩
  · exact hpost

end Stages

end Fallible

end NNIS
