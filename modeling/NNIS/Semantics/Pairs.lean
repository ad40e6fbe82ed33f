import NNIS.Semantics.Fallible

/-!
# Pairs of runs

Two runs of one fallible computation from related states. `Fallible.Respects R m Q E` says that the
runs return the same value in states related by `Q`, or fail with the same error in states related
by `E`: what the relation `R` leaves open does not show in the result. A computation may read the
state in any way that the relation determines (`Fallible.Respects.get_bind`).

## Main definitions

* `Fallible.Agree`, `Fallible.Respects`.

## Main results

* `Fallible.Respects.bind`, `Fallible.Respects.get_bind`, `Fallible.Respects.attempt`,
  `Fallible.Respects.zoom`, `Fallible.Respects.foldRange`, `Fallible.Respects.foldEach`.
-/

set_option autoImplicit false

namespace NNIS

universe u v

namespace Fallible

variable {σ τ ε α β : Type u}

/-- Equal values in states related by `Q`, or equal errors in states related by `E`. -/
def Agree (Q E : σ → σ → Prop) : Except ε α × σ → Except ε α × σ → Prop
  | (.ok a, s), (.ok b, t) => a = b ∧ Q s t
  | (.error e, s), (.error e', t) => e = e' ∧ E s t
  | _, _ => False

theorem Agree.mono {Q Q' E E' : σ → σ → Prop} {r r' : Except ε α × σ} (h : Agree Q E r r')
    (hQ : ∀ s t, Q s t → Q' s t) (hE : ∀ s t, E s t → E' s t) : Agree Q' E' r r' := by
  rcases r with ⟨_ | _, s⟩ <;> rcases r' with ⟨_ | _, t⟩
  · exact ⟨h.1, hE _ _ h.2⟩
  · exact h
  · exact h
  · exact ⟨h.1, hQ _ _ h.2⟩

/-- Two outcomes that agree have the same result. -/
theorem Agree.fst_eq {Q E : σ → σ → Prop} {r r' : Except ε α × σ} (h : Agree Q E r r') :
    r.1 = r'.1 := by
  rcases r with ⟨_ | _, s⟩ <;> rcases r' with ⟨_ | _, t⟩
  · exact congrArg Except.error h.1
  · exact h.elim
  · exact h.elim
  · exact congrArg Except.ok h.1

/-- Two runs from related states agree. -/
def Respects (R : σ → σ → Prop) (m : Fallible σ ε α) (Q E : σ → σ → Prop) : Prop :=
  ∀ s t, R s t → Agree Q E (m.run s) (m.run t)

namespace Respects

variable {R R' Q Q' E E' : σ → σ → Prop}

theorem conseq {m : Fallible σ ε α} (h : Respects R m Q E) (hR : ∀ s t, R' s t → R s t)
    (hQ : ∀ s t, Q s t → Q' s t) (hE : ∀ s t, E s t → E' s t) : Respects R' m Q' E' :=
  fun s t hst => (h s t (hR s t hst)).mono hQ hE

/-- Two runs from one state. -/
theorem eq (m : Fallible σ ε α) : Respects Eq m Eq Eq := by
  rintro s - rfl
  rcases m.run s with ⟨_ | _, _⟩ <;> exact ⟨rfl, rfl⟩

theorem pure (a : α) (h : ∀ s t, R s t → Q s t) :
    Respects R (Pure.pure a : Fallible σ ε α) Q E :=
  fun s t hst => ⟨rfl, h s t hst⟩

theorem fail (e : ε) (h : ∀ s t, R s t → E s t) :
    Respects R (Fallible.fail e : Fallible σ ε α) Q E :=
  fun s t hst => ⟨rfl, h s t hst⟩

theorem ofExcept (r : Except ε α) (h : ∀ s t, R s t → Q s t) (h' : ∀ s t, R s t → E s t) :
    Respects R (Fallible.ofExcept r) Q E := by
  intro s t hst
  rw [run_ofExcept, run_ofExcept]
  cases r with
  | error e => exact ⟨rfl, h' s t hst⟩
  | ok a => exact ⟨rfl, h s t hst⟩

theorem modify (f : σ → σ) (h : ∀ s t, R s t → Q (f s) (f t)) :
    Respects R (Fallible.modify f : Fallible σ ε PUnit) Q E :=
  fun s t hst => ⟨rfl, h s t hst⟩

theorem bind {m : Fallible σ ε α} {f : α → Fallible σ ε β} {Q' : σ → σ → Prop}
    (hm : Respects R m Q' E) (hf : ∀ a, Respects Q' (f a) Q E) : Respects R (m >>= f) Q E := by
  intro s t hst
  have h := hm s t hst
  rcases hs : m.run s with ⟨e | a, s'⟩ <;> rcases ht : m.run t with ⟨e' | b, t'⟩ <;>
    rw [hs, ht] at h
  · rw [run_bind_error hs, run_bind_error ht]
    exact h
  · exact h.elim
  · exact h.elim
  · rw [run_bind_ok hs, run_bind_ok ht, h.1]
    exact hf b s' t' h.2

/-- The state is read in a way that the relation determines. -/
theorem get_bind {f : σ → Fallible σ ε α} (hf : ∀ s t, R s t → f s = f t)
    (h : ∀ s, Respects R (f s) Q E) : Respects R (Fallible.get >>= f) Q E := by
  intro s t hst
  rw [run_bind_ok (run_get s), run_bind_ok (run_get t), ← hf s t hst]
  exact h s s t hst

theorem attempt {m : Fallible σ ε α} (h : Respects R m Q Q) : Respects R m.attempt Q E := by
  intro s t hst
  have hagree := h s t hst
  rw [run_attempt, run_attempt]
  rcases hs : m.run s with ⟨_ | _, s'⟩ <;> rcases ht : m.run t with ⟨_ | _, t'⟩ <;>
    rw [hs, ht] at hagree
  · exact ⟨congrArg Except.error hagree.1, hagree.2⟩
  · exact hagree.elim
  · exact hagree.elim
  · exact ⟨congrArg Except.ok hagree.1, hagree.2⟩

/-- Two runs on a part of the state. -/
theorem zoom {view : σ → τ} {update : τ → σ → σ} {m : Fallible τ ε α} {T T' T'' : τ → τ → Prop}
    (h : Respects T m T' T'') (hR : ∀ s t, R s t → T (view s) (view t))
    (hQ : ∀ s t x y, R s t → T' x y → Q (update x s) (update y t))
    (hE : ∀ s t x y, R s t → T'' x y → E (update x s) (update y t)) :
    Respects R (m.zoom view update) Q E := by
  intro s t hst
  have hagree := h _ _ (hR s t hst)
  rw [run_zoom, run_zoom]
  rcases hs : m.run (view s) with ⟨_ | _, s'⟩ <;> rcases ht : m.run (view t) with ⟨_ | _, t'⟩ <;>
    rw [hs, ht] at hagree
  · exact ⟨hagree.1, hE s t _ _ hst hagree.2⟩
  · exact hagree.elim
  · exact hagree.elim
  · exact ⟨hagree.1, hQ s t _ _ hst hagree.2⟩

theorem foldRange {n : ℕ} {a : α} {body : ℕ → α → Fallible σ ε α}
    (h : ∀ i < n, ∀ b, Respects R (body i b) R E) :
    Respects R (Fallible.foldRange n a body) R E := by
  induction n with
  | zero => exact pure a fun _ _ hst => hst
  | succ n ih => exact (ih fun i hi => h i (by omega)).bind fun b => h n (by omega) b

theorem foldEach {ι : Type v} {l : List ι} {a : α} {body : ι → α → Fallible σ ε α}
    (h : ∀ x b, Respects R (body x b) R E) : Respects R (Fallible.foldEach l a body) R E := by
  induction l generalizing a with
  | nil => exact pure a fun _ _ hst => hst
  | cons x l ih => exact (h x a).bind fun b => ih

theorem forRange {n : ℕ} {body : ℕ → Fallible σ ε PUnit} (h : ∀ i < n, Respects R (body i) R E) :
    Respects R (Fallible.forRange n body) R E :=
  foldRange fun i hi _ => h i hi

theorem forEach {ι : Type v} {l : List ι} {body : ι → Fallible σ ε PUnit}
    (h : ∀ x, Respects R (body x) R E) : Respects R (Fallible.forEach l body) R E :=
  foldEach fun x _ => h x

end Respects

end Fallible

end NNIS
