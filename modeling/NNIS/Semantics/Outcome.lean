import Mathlib.Data.List.Induction
import Mathlib.Data.Nat.Notation
import Mathlib.Tactic.SplitIfs

/-!
# Outcomes of computations that may stop

A computation without a state returns a value, returns an error, or panics. An index out of range
is a panic, so that a program whose outcome is a value or an error never indexed out of range.
The lemmas below read an outcome backwards: a sequence that returned is a sequence whose parts
returned.

## Main definitions

* `Stop`, `Outcome`.
* `Except.Meets` — a condition for values and one for errors.
* `Outcome.raise`, `Outcome.require`, `Outcome.okOr`, `Outcome.index`, `Outcome.wrap`.
* `Outcome.Safe` — the computation does not panic.
* `Outcome.Ensures` — it returns an error or a value that satisfies a condition.

## Main results

* `Except.bind_eq_ok_iff`, `Outcome.require_eq_ok_iff`, `Outcome.index_eq_ok_iff`,
  `Outcome.forM_eq_ok_iff`.
* `Outcome.foldlM_invariant`, `Outcome.foldlM_range_total` — invariants of loops.
* `Outcome.foldlM_range_eq_ok_iff` — a loop in closed form.
* `Outcome.Safe.bind`, `Outcome.Safe.forM` — the rules of `Safe`.
-/

set_option autoImplicit false

namespace NNIS

universe u v

/-- How a computation ends that does not return a value. -/
inductive Stop (ε : Type u)
  | error (e : ε)
  | panic
  deriving DecidableEq

/-- The outcome of a computation: a value, an error or a panic. -/
abbrev Outcome (ε α : Type u) := Except (Stop ε) α

namespace Except

variable {ε α β : Type u}

/-- A sequence returns exactly when both of its parts do. -/
theorem bind_eq_ok_iff {x : Except ε α} {f : α → Except ε β} {b : β} :
    (x >>= f) = .ok b ↔ ∃ a, x = .ok a ∧ f a = .ok b := by
  cases x with
  | error e => exact ⟨nofun, nofun⟩
  | ok a => exact ⟨fun h => ⟨a, rfl, h⟩, fun ⟨_, ha, h⟩ => Except.ok.inj ha ▸ h⟩

/-- A sequence fails exactly when its first part does, or its second part on the first's value. -/
theorem bind_eq_error_iff {x : Except ε α} {f : α → Except ε β} {e : ε} :
    (x >>= f) = .error e ↔ x = .error e ∨ ∃ a, x = .ok a ∧ f a = .error e := by
  cases x with
  | error e' =>
    exact ⟨fun h => .inl (congrArg _ (Except.error.inj h)), fun h => h.elim
      (fun h => congrArg _ (Except.error.inj h)) nofun⟩
  | ok a =>
    exact ⟨fun h => .inr ⟨a, rfl, h⟩, fun h => h.elim nofun fun ⟨_, ha, h⟩ => Except.ok.inj ha ▸ h⟩

theorem pure_eq_ok_iff {a b : α} : (pure a : Except ε α) = .ok b ↔ a = b :=
  ⟨Except.ok.inj, congrArg _⟩

/-- A computation behind a guard returns exactly when the guard lets it and it returns. -/
theorem ite_error_eq_ok_iff {p : Prop} [Decidable p] {e : ε} {x : Except ε α} {a : α} :
    (if p then .error e else x) = .ok a ↔ ¬ p ∧ x = .ok a := by
  split_ifs with hp
  · exact ⟨nofun, fun h => absurd hp h.1⟩
  · exact ⟨fun h => ⟨hp, h⟩, fun h => h.2⟩

/-- A computation that returns under one condition only, and then one value only. -/
theorem toOption_eq_ite {x : Except ε α} {p : Prop} [Decidable p] {a : α}
    (h : ∀ b, x = .ok b ↔ p ∧ a = b) : x.toOption = if p then some a else none := by
  split_ifs with hp
  · rw [(h a).2 ⟨hp, rfl⟩]
    rfl
  · cases x with
    | error e => rfl
    | ok b => exact absurd ((h b).1 rfl).1 hp

@[simp] theorem ok_bind (a : α) (f : α → Except ε β) : (Except.ok a >>= f) = f a := rfl

end Except

/-! ### Two postconditions -/

namespace Except

variable {ε α β : Type u} {γ : Type v}

/-- The computation returns a value or an error, each of which satisfies its condition. -/
def Meets (x : Except ε α) (Q : α → Prop) (E : ε → Prop) : Prop :=
  match x with
  | .ok a => Q a
  | .error e => E e

namespace Meets

variable {x : Except ε α} {Q Q' : α → Prop} {E E' : ε → Prop}

theorem of_ok (h : Meets x Q E) {a : α} (ha : x = .ok a) : Q a := by
  subst ha
  exact h

theorem of_error (h : Meets x Q E) {e : ε} (he : x = .error e) : E e := by
  subst he
  exact h

theorem mono (h : Meets x Q E) (hQ : ∀ a, Q a → Q' a) (hE : ∀ e, E e → E' e) :
    Meets x Q' E' := by
  match x, h with
  | .ok a, h => exact hQ a h
  | .error e, h => exact hE e h

theorem bind (h : Meets x Q E) {f : α → Except ε β} {R : β → Prop}
    (hf : ∀ a, Q a → Meets (f a) R E) : Meets (x >>= f) R E := by
  match x, h with
  | .ok a, h => exact hf a h
  | .error e, h => exact h

/-- A loop over a list keeps an invariant of the elements that have been visited; an error of a
part of the list has to be an error of the whole. -/
theorem foldlM {body : β → γ → Except ε β} (I : List γ → β → Prop) (E : List γ → ε → Prop)
    (l : List γ) (b : β) (start : I [] b)
    (step : ∀ done x, (∀ y ∈ done ++ [x], y ∈ l) → ∀ b, I done b →
      Meets (body b x) (I (done ++ [x])) (E (done ++ [x])))
    (grow : ∀ done x e, E done e → E (done ++ [x]) e) :
    Meets (l.foldlM body b) (I l) (E l) := by
  induction l using List.reverseRecOn with
  | nil => exact start
  | append_singleton l x ih =>
    rw [List.foldlM_append]
    refine Meets.bind ((ih fun done y hy => step done y fun z hz =>
      List.mem_append_left _ (hy z hz)).mono (fun _ h => h) fun e h => grow l x e h)
        fun b' hb' => ?_
    rw [List.foldlM_cons]
    exact Meets.bind (step l x (fun y hy => hy) b' hb') fun _ h => h

/-- A loop over a list keeps an invariant indexed by the number of completed rounds. -/
theorem foldlM_index {body : β → γ → Except ε β} (I : ℕ → β → Prop) {E : ε → Prop} (l : List γ)
    (b : β) (start : I 0 b)
    (step : ∀ i (h : i < l.length) b, I i b → Meets (body b l[i]) (I (i + 1)) E) :
    Meets (l.foldlM body b) (I l.length) E := by
  induction l generalizing I b with
  | nil => exact start
  | cons x l ih =>
    rw [List.foldlM_cons]
    refine Meets.bind (step 0 (Nat.succ_pos _) b start) fun b' hb' => ?_
    exact ih (fun i => I (i + 1)) b' hb' fun i hi => step (i + 1) (Nat.succ_lt_succ hi)

/-- A counted loop keeps an invariant indexed by the number of completed rounds. -/
theorem foldlM_range {body : β → ℕ → Except ε β} (I : ℕ → β → Prop) {E : ε → Prop} {n : ℕ} (b : β)
    (start : I 0 b) (step : ∀ i < n, ∀ b, I i b → Meets (body b i) (I (i + 1)) E) :
    Meets ((List.range n).foldlM body b) (I n) E := by
  have h : Meets ((List.range n).foldlM body b) (I (List.range n).length) E :=
    foldlM_index I (List.range n) b start fun i hi b hb => by
      rw [List.getElem_range]
      exact step i (by rwa [List.length_range] at hi) b hb
  rwa [List.length_range] at h

end Meets

end Except

namespace Outcome

variable {ε α β : Type u}

/-- Return an error. -/
def raise (e : ε) : Outcome ε α := .error (.error e)

/-- Return an error unless a condition holds. -/
def require (p : Prop) [Decidable p] (e : ε) : Outcome ε PUnit := if p then .ok ⟨⟩ else raise e

/-- The value, or an error if there is none. -/
def okOr (o : Option α) (e : ε) : Outcome ε α :=
  match o with
  | some a => .ok a
  | none => raise e

/-- The element of a list at an index; an index out of range is a panic. -/
def index (l : List α) (i : ℕ) : Outcome ε α :=
  match l[i]? with
  | some a => .ok a
  | none => .error .panic

/-- Report the errors of a computation as errors of another kind; a panic stays a panic. -/
def wrap {ε' : Type u} (f : ε → ε') (x : Outcome ε α) : Outcome ε' α :=
  match x with
  | .ok a => .ok a
  | .error (.error e) => raise (f e)
  | .error .panic => .error .panic

@[simp] theorem raise_eq_ok_iff {e : ε} {a : α} : (raise e : Outcome ε α) = .ok a ↔ False :=
  ⟨nofun, nofun⟩

theorem require_eq_ok_iff {p : Prop} [Decidable p] {e : ε} {u : PUnit} :
    require p e = .ok u ↔ p := by
  unfold require
  split_ifs with h
  · exact ⟨fun _ => h, fun _ => rfl⟩
  · exact ⟨nofun, fun hp => absurd hp h⟩

theorem require_of {p : Prop} [Decidable p] (e : ε) (h : p) :
    require p e = .ok (⟨⟩ : PUnit.{u + 1}) := if_pos h

theorem require_of_not {p : Prop} [Decidable p] (e : ε) (h : ¬p) :
    (require p e : Outcome ε PUnit.{u + 1}) = raise e := if_neg h

theorem okOr_some (a : α) (e : ε) : okOr (some a) e = .ok a := rfl

theorem okOr_eq_ok_iff {o : Option α} {e : ε} {a : α} : okOr o e = .ok a ↔ o = some a := by
  cases o with
  | none => exact ⟨nofun, nofun⟩
  | some b => exact ⟨fun h => congrArg _ (Except.ok.inj h), fun h => congrArg _ (Option.some.inj h)⟩

theorem wrap_eq_ok_iff {ε' : Type u} {f : ε → ε'} {x : Outcome ε α} {a : α} :
    wrap f x = .ok a ↔ x = .ok a := by
  match x with
  | .ok b => exact ⟨fun h => congrArg _ (Except.ok.inj h), fun h => congrArg _ (Except.ok.inj h)⟩
  | .error (.error e) => exact ⟨nofun, nofun⟩
  | .error .panic => exact ⟨nofun, nofun⟩

@[simp] theorem wrap_ok {ε' : Type u} (f : ε → ε') (a : α) : wrap f (.ok a) = .ok a := rfl

@[simp] theorem wrap_require {ε' : Type u} (f : ε → ε') (p : Prop) [Decidable p] (e : ε) :
    wrap f (require p e) = require p (f e) := by
  unfold require
  split_ifs <;> rfl

@[simp] theorem wrap_okOr {ε' : Type u} (f : ε → ε') (o : Option α) (e : ε) :
    wrap f (okOr o e) = okOr o (f e) := by
  cases o <;> rfl

@[simp] theorem wrap_wrap {ε' ε'' : Type u} (f : ε' → ε'') (g : ε → ε') (x : Outcome ε α) :
    wrap f (wrap g x) = wrap (f ∘ g) x := by
  match x with
  | .ok _ | .error (.error _) | .error .panic => rfl

theorem wrap_bind {ε' : Type u} (f : ε → ε') (x : Outcome ε α) (g : α → Outcome ε β) :
    wrap f (x >>= g) = wrap f x >>= fun a => wrap f (g a) := by
  match x with
  | .ok _ | .error (.error _) | .error .panic => rfl

theorem eq_of_okOr_eq_error {o : Option α} {e : ε} {e' : Stop ε} (h : okOr o e = .error e') :
    e' = .error e := by
  cases o with
  | none => exact (Except.error.inj h).symm
  | some a => exact nomatch h

theorem eq_of_require_eq_error {p : Prop} [Decidable p] {e : ε} {e' : Stop ε}
    (h : require p e = .error e') : e' = .error e ∧ ¬ p := by
  unfold require at h
  split_ifs at h with hp
  exact ⟨(Except.error.inj h).symm, hp⟩

theorem index_eq_ok_iff {l : List α} {i : ℕ} {a : α} :
    (index l i : Outcome ε α) = .ok a ↔ l[i]? = some a := by
  unfold index
  cases l[i]? with
  | none => exact ⟨nofun, nofun⟩
  | some b => exact ⟨fun h => congrArg _ (Except.ok.inj h), fun h => congrArg _ (Option.some.inj h)⟩

theorem index_of_lt {l : List α} {i : ℕ} (h : i < l.length) :
    (index l i : Outcome ε α) = .ok l[i] :=
  index_eq_ok_iff.2 (List.getElem?_eq_getElem h)

/-! ### Loops without a value -/

theorem forM_cons_eq (x : α) (l : List α) (body : α → Outcome ε PUnit) :
    (x :: l).forM body = body x >>= fun _ => l.forM body := rfl

/-- A loop returns exactly when all of its rounds do. -/
theorem forM_eq_ok_iff {l : List α} {body : α → Outcome ε PUnit} :
    l.forM body = .ok ⟨⟩ ↔ ∀ x ∈ l, body x = .ok ⟨⟩ := by
  induction l with
  | nil => exact ⟨fun _ => nofun, fun _ => rfl⟩
  | cons x l ih =>
    rw [forM_cons_eq, Except.bind_eq_ok_iff, List.forall_mem_cons, ← ih]
    exact ⟨fun ⟨_, hx, hl⟩ => ⟨hx, hl⟩, fun ⟨hx, hl⟩ => ⟨⟨⟩, hx, hl⟩⟩

/-- A loop fails only with the error of a round. -/
theorem exists_of_forM_eq_error {l : List α} {body : α → Outcome ε PUnit} {e : Stop ε}
    (h : l.forM body = .error e) : ∃ x ∈ l, body x = .error e := by
  induction l with
  | nil => exact nomatch h
  | cons x l ih =>
    rw [forM_cons_eq, Except.bind_eq_error_iff] at h
    rcases h with h | ⟨_, -, h⟩
    · exact ⟨x, List.mem_cons_self, h⟩
    · obtain ⟨y, hy, he⟩ := ih h
      exact ⟨y, List.mem_cons_of_mem x hy, he⟩

/-! ### Loops with a value -/

/-- A loop over a list keeps an invariant indexed by the number of completed rounds. -/
theorem foldlM_invariant {γ : Type v} (I : ℕ → β → Prop) {body : β → γ → Outcome ε β} {l : List γ}
    (step : ∀ i (h : i < l.length) b b', I i b → body b l[i] = .ok b' → I (i + 1) b') {b b' : β}
    (hb : I 0 b) (h : l.foldlM body b = .ok b') : I l.length b' := by
  induction l generalizing I b with
  | nil =>
    obtain rfl := Except.pure_eq_ok_iff.1 h
    exact hb
  | cons x l ih =>
    rw [List.foldlM_cons, Except.bind_eq_ok_iff] at h
    obtain ⟨b₁, hx, hl⟩ := h
    exact ih (fun i => I (i + 1))
      (fun i hi => step (i + 1) (Nat.succ_lt_succ hi)) (step 0 (Nat.succ_pos _) b b₁ hb hx) hl

/-- A counted loop all of whose rounds return keeps its invariant and returns. -/
theorem foldlM_range_total (I : ℕ → β → Prop) {body : β → ℕ → Outcome ε β} {n : ℕ}
    (step : ∀ i < n, ∀ b, I i b → ∃ b', body b i = .ok b' ∧ I (i + 1) b') {b : β} (hb : I 0 b) :
    ∃ b', (List.range n).foldlM body b = .ok b' ∧ I n b' := by
  induction n with
  | zero => exact ⟨b, rfl, hb⟩
  | succ n ih =>
    obtain ⟨b₁, hrun, hb₁⟩ := ih fun i hi => step i (Nat.lt_succ_of_lt hi)
    obtain ⟨b₂, hbody, hb₂⟩ := step n (Nat.lt_succ_self n) b₁ hb₁
    refine ⟨b₂, ?_, hb₂⟩
    rw [List.range_succ, List.foldlM_append, hrun, Except.ok_bind, List.foldlM_cons, hbody]
    rfl

/-- A counted loop whose rounds return under a condition, each with a known state. -/
theorem foldlM_range_eq_ok_iff {body : β → ℕ → Outcome ε β} {n : ℕ} (P : ℕ → Prop) (state : ℕ → β)
    (h : ∀ i < n, ∀ b, body (state i) i = .ok b ↔ P i ∧ b = state (i + 1)) {b : β} :
    (List.range n).foldlM body (state 0) = .ok b ↔ (∀ i < n, P i) ∧ b = state n := by
  induction n generalizing b with
  | zero =>
    rw [List.range_zero, List.foldlM_nil, Except.pure_eq_ok_iff]
    exact ⟨fun h => ⟨fun i hi => absurd hi (Nat.not_lt_zero i), h.symm⟩, fun h => h.2.symm⟩
  | succ n ih =>
    have hlast : ∀ c b, (state n = c) →
        (([n].foldlM body c : Outcome ε β) = .ok b ↔ P n ∧ b = state (n + 1)) := by
      rintro _ b rfl
      rw [List.foldlM_cons, ← h n (Nat.lt_succ_self n)]
      exact Iff.of_eq (congrArg (· = _) (bind_pure _))
    rw [List.range_succ, List.foldlM_append, Except.bind_eq_ok_iff, Nat.forall_lt_succ_right]
    constructor
    · rintro ⟨c, hc, hb⟩
      obtain ⟨hP, rfl⟩ := (ih fun i hi => h i (Nat.lt_succ_of_lt hi)).1 hc
      obtain ⟨hn, rfl⟩ := (hlast _ _ rfl).1 hb
      exact ⟨⟨hP, hn⟩, rfl⟩
    · rintro ⟨⟨hP, hn⟩, rfl⟩
      exact ⟨_, (ih fun i hi => h i (Nat.lt_succ_of_lt hi)).2 ⟨hP, rfl⟩,
        (hlast _ _ rfl).2 ⟨hn, rfl⟩⟩

/-! ### Computations that do not panic -/

/-- The computation returns a value or an error. -/
def Safe (x : Outcome ε α) : Prop := x ≠ .error .panic

namespace Safe

theorem ok (a : α) : Safe (.ok a : Outcome ε α) := nofun

theorem pure (a : α) : Safe (Pure.pure a : Outcome ε α) := nofun

theorem raise (e : ε) : Safe (Outcome.raise e : Outcome ε α) := nofun

theorem require (p : Prop) [Decidable p] (e : ε) : Safe (Outcome.require p e) := by
  unfold Outcome.require
  split_ifs
  · exact Safe.ok _
  · exact Safe.raise e

theorem okOr (o : Option α) (e : ε) : Safe (Outcome.okOr o e) := by
  cases o with
  | none => exact Safe.raise e
  | some a => exact Safe.ok a

theorem wrap {ε' : Type u} (f : ε → ε') {x : Outcome ε α} (h : Safe x) :
    Safe (Outcome.wrap f x) := by
  rcases x with (e | _) | a
  · exact Safe.raise (f e)
  · exact absurd rfl h
  · exact Safe.ok a

theorem bind {x : Outcome ε α} {f : α → Outcome ε β} (hx : Safe x)
    (hf : ∀ a, x = .ok a → Safe (f a)) : Safe (x >>= f) := by
  intro h
  rcases Except.bind_eq_error_iff.1 h with h | ⟨a, ha, h⟩
  · exact hx h
  · exact hf a ha h

theorem forM {γ : Type v} {body : γ → Outcome ε PUnit} {l : List γ} (h : ∀ x ∈ l, Safe (body x)) :
    Safe (l.forM body) := by
  induction l with
  | nil => exact Safe.pure _
  | cons x l ih =>
    exact (h x List.mem_cons_self).bind fun _ _ => ih fun y hy => h y (List.mem_cons_of_mem x hy)

/-- An outcome without a panic is a value or an error. -/
theorem cases {x : Outcome ε α} (h : Safe x) : (∃ a, x = .ok a) ∨ ∃ e, x = .error (.error e) := by
  rcases x with (e | _) | a
  · exact .inr ⟨e, rfl⟩
  · exact absurd rfl h
  · exact .inl ⟨a, rfl⟩

end Safe

/-! ### Postconditions -/

/-- The computation returns a value that satisfies a condition, or an error. -/
def Ensures (x : Outcome ε α) (Q : α → Prop) : Prop :=
  match x with
  | .ok a => Q a
  | .error (.error _) => True
  | .error .panic => False

namespace Ensures

variable {Q Q' : α → Prop} {x : Outcome ε α}

theorem of_safe (hx : Safe x) (h : ∀ a, Q a) : x.Ensures Q := by
  match x, hx with
  | .ok a, _ => exact h a
  | .error (.error _), _ => trivial
  | .error .panic, hx => exact hx rfl

theorem safe (h : x.Ensures Q) : Safe x := by
  rintro rfl
  exact h

theorem of_ok (h : x.Ensures Q) {a : α} (ha : x = .ok a) : Q a := by
  subst ha
  exact h

theorem bind (hx : x.Ensures Q) {f : α → Outcome ε β} {R : β → Prop}
    (hf : ∀ a, Q a → (f a).Ensures R) : (x >>= f).Ensures R := by
  match x, hx with
  | .ok a, hx => exact hf a hx
  | .error (.error _), _ => trivial

end Ensures

end Outcome

end NNIS
