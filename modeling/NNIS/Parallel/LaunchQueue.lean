import NNIS.Semantics.Fallible

/-!
# Submitted launches

Launches are submitted to a stream one after the other. Any of them may be refused, and the answer
may depend on the launches before. A stream keeps the launches that have been accepted; a refused
launch leaves nothing behind.

## Main definitions

* `LaunchQueue`, `LaunchQueue.submit`.
* `LaunchQueue.Accepts`, `LaunchQueue.Refuses` — what the environment does with launches of a kind.
* `LaunchQueue.Refused` — an error that comes from a launch.
* `LaunchQueue.Submits` — a computation that submits some launches, or a beginning of them.
* `LaunchQueue.Returns` — a computation that returns when the launches of a kind are accepted.

## Main results

* `LaunchQueue.submit_spec` — a launch is accepted, or its refusal is the error.
* `LaunchQueue.Submits.bind`, `LaunchQueue.Returns.bind` — sequences.
-/

set_option autoImplicit false

namespace NNIS

/-- A stream: the refusal of the next launch after some launches, if it is refused, and the launches
that have been accepted, in order. -/
structure LaunchQueue (ε L : Type) where
  refusal : List L → L → Option ε
  launches : List L

namespace LaunchQueue

variable {ε L : Type} {kind : L → Prop} {s₀ s : LaunchQueue ε L} {launch : L} {e : ε}

/-- A stream to which nothing has been submitted. -/
def fresh (refusal : List L → L → Option ε) : LaunchQueue ε L := ⟨refusal, []⟩

/-- A stream with more launches. -/
def extend (more : List L) (s : LaunchQueue ε L) : LaunchQueue ε L :=
  { s with launches := s.launches ++ more }

/-- Submit a launch. -/
def submit (launch : L) : Fallible (LaunchQueue ε L) ε PUnit :=
  ⟨fun s =>
    match s.refusal s.launches launch with
    | none => (.ok ⟨⟩, s.extend [launch])
    | some e => (.error e, s)⟩

/-- Every launch of a kind is accepted. -/
def Accepts (s : LaunchQueue ε L) (kind : L → Prop) : Prop :=
  ∀ before launch, kind launch → s.refusal before launch = none

/-- Every launch of a kind is refused. -/
def Refuses (s : LaunchQueue ε L) (kind : L → Prop) : Prop :=
  ∀ before launch, kind launch → s.refusal before launch ≠ none

/-- An error is the refusal of a next launch of a kind. -/
structure Refused (kind : L → Prop) (s₀ : LaunchQueue ε L) (e : ε) (s : LaunchQueue ε L) :
    Prop where
  refusal_eq : s.refusal = s₀.refusal
  launch_refused : ∃ launch, kind launch ∧ s.refusal s.launches launch = some e

@[simp] theorem launches_extend (more : List L) (s : LaunchQueue ε L) :
    (s.extend more).launches = s.launches ++ more := rfl

@[simp] theorem extend_nil (s : LaunchQueue ε L) : s.extend [] = s := by
  rw [extend, List.append_nil]

theorem extend_append (first rest : List L) (s : LaunchQueue ε L) :
    s.extend (first ++ rest) = (s.extend first).extend rest := by
  rw [extend, extend, extend, List.append_assoc]

theorem run_submit (h : s.refusal s.launches launch = none) :
    (submit launch).run s = (.ok ⟨⟩, s.extend [launch]) := by
  simp only [submit, h]

theorem run_submit_refused (h : s.refusal s.launches launch = some e) :
    (submit launch).run s = (.error e, s) := by
  simp only [submit, h]

/-- A stream that accepts the launches of a kind does not refuse one. -/
theorem Refused.absurd {accepted : L → Prop} (h : Refused kind s₀ e s) (ha : s₀.Accepts accepted)
    (hk : ∀ launch, kind launch → accepted launch) : False := by
  obtain ⟨launch, hlaunch, hrefused⟩ := h.launch_refused
  rw [h.refusal_eq, ha _ launch (hk launch hlaunch)] at hrefused
  cases hrefused

theorem submit_spec (s₀ : LaunchQueue ε L) (hkind : kind launch) :
    Fallible.Spec (fun s => s.refusal = s₀.refusal) (submit launch)
      (fun _ s => s.refusal = s₀.refusal) (Refused kind s₀) := by
  intro s hs
  rcases h : s.refusal s.launches launch with - | e
  · rw [run_submit h]
    exact hs
  · rw [run_submit_refused h]
    exact ⟨hs, launch, hkind, h⟩

/-! ### Sequences of launches -/

/-- A computation submits some launches if it returns, and a beginning of them if it fails. -/
def Submits (m : Fallible (LaunchQueue ε L) ε PUnit) (plan : List L) : Prop :=
  ∀ s₀, Fallible.Spec (fun s => s = s₀) m (fun _ s => s = s₀.extend plan)
    fun _ s => ∃ part, part <+: plan ∧ s = s₀.extend part

/-- A computation returns on every stream that accepts the launches of a kind. -/
def Returns (kind : L → Prop) (m : Fallible (LaunchQueue ε L) ε PUnit) : Prop :=
  ∀ s : LaunchQueue ε L, s.Accepts kind → ∃ s', m.run s = (.ok ⟨⟩, s') ∧ s'.refusal = s.refusal

namespace Submits

variable {α : Type} {m : Fallible (LaunchQueue ε L) ε PUnit} {plan first rest : List L}

theorem fail (e : ε) (plan : List L) :
    Submits (Fallible.fail e : Fallible (LaunchQueue ε L) ε PUnit) plan :=
  fun s₀ => Fallible.Spec.fail _ fun _ hs => ⟨[], List.nil_prefix, hs.trans s₀.extend_nil.symm⟩

theorem submit (launch : L) :
    Submits (LaunchQueue.submit launch : Fallible _ ε PUnit) [launch] := by
  rintro s₀ s rfl
  rcases h : s.refusal s.launches launch with - | e
  · rw [run_submit h]
    exact rfl
  · rw [run_submit_refused h]
    exact ⟨[], List.nil_prefix, s.extend_nil.symm⟩

theorem bind {f : PUnit → Fallible (LaunchQueue ε L) ε PUnit} (hm : Submits m first)
    (hf : ∀ a, Submits (f a) rest) : Submits (m >>= f) (first ++ rest) := by
  refine fun s₀ => Fallible.Spec.bind ((hm s₀).conseq (fun _ h => h) (fun _ _ h => h)
    fun _ s hs => ?_) fun a => ?_
  · obtain ⟨part, hpart, rfl⟩ := hs
    exact ⟨part, hpart.trans (List.prefix_append ..), rfl⟩
  · refine (hf a (s₀.extend first)).conseq (fun _ h => h) (fun _ s hs => ?_) fun _ s hs => ?_
    · rw [hs, extend_append]
    · obtain ⟨part, hpart, rfl⟩ := hs
      exact ⟨first ++ part, (List.prefix_append_right_inj first).2 hpart,
        (extend_append ..).symm⟩

/-- A check before launches. -/
theorem ofExcept_bind {r : Except ε α} {f : α → Fallible (LaunchQueue ε L) ε PUnit}
    (h : ∀ a, r = .ok a → Submits (f a) plan) : Submits (Fallible.ofExcept r >>= f) plan := by
  cases r with
  | error e => exact fun s₀ => fun s hs => ⟨[], List.nil_prefix, hs.trans s₀.extend_nil.symm⟩
  | ok a =>
    rw [Fallible.ofExcept_ok_bind]
    exact h a rfl

/-- The answer to a wait after all launches. -/
theorem bind_ofExcept {r : Except ε PUnit} (h : Submits m plan) :
    Submits (m >>= fun _ => Fallible.ofExcept r) plan := by
  refine fun s₀ => Fallible.Spec.bind (h s₀) fun _ => Fallible.Spec.ofExcept (fun _ _ _ hs => hs)
    fun _ _ s hs => ⟨plan, List.prefix_rfl, hs⟩

end Submits

namespace Returns

variable {α : Type} {m : Fallible (LaunchQueue ε L) ε PUnit}

theorem submit (h : kind launch) : Returns kind (LaunchQueue.submit launch : Fallible _ ε PUnit) :=
  fun _ hs => ⟨_, run_submit (hs _ launch h), rfl⟩

theorem bind {f : PUnit → Fallible (LaunchQueue ε L) ε PUnit} (hm : Returns kind m)
    (hf : ∀ a, Returns kind (f a)) : Returns kind (m >>= f) := by
  intro s hs
  obtain ⟨s₁, hrun, hrefusal⟩ := hm s hs
  obtain ⟨s₂, hrun', hrefusal'⟩ := hf ⟨⟩ s₁ fun before launch h =>
    (congrFun (congrFun hrefusal before) launch).trans (hs before launch h)
  exact ⟨s₂, (Fallible.run_bind_ok hrun f).trans hrun', hrefusal'.trans hrefusal⟩

theorem ofExcept {r : Except ε PUnit} (hr : r = .ok ⟨⟩) :
    Returns kind (Fallible.ofExcept r : Fallible (LaunchQueue ε L) ε PUnit) :=
  fun s _ => ⟨s, congrArg (·, s) hr, rfl⟩

theorem ofExcept_bind {r : Except ε α} {a : α} {f : α → Fallible (LaunchQueue ε L) ε PUnit}
    (hr : r = .ok a) (h : Returns kind (f a)) : Returns kind (Fallible.ofExcept r >>= f) := by
  rw [hr, Fallible.ofExcept_ok_bind]
  exact h

end Returns

end LaunchQueue

end NNIS
