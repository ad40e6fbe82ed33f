import Mathlib.Algebra.Order.Group.Nat
import Mathlib.Data.List.Infix
import Mathlib.Logic.Relation

/-!
# The order of work on streams

A host submits work to several streams. The work of one stream is done in the order of its
submission; work of different streams is ordered by events only: a stream that waits for an event
goes on when the submission that last recorded the event is done. A device may do the work in any
order that respects this, and the contents of its memory are what the last write in that order has
left.

## Main definitions

* `Submission`, `Timeline` — what a host has submitted, the oldest first.
* `Timeline.At` — the submission at an index has a property.
* `Timeline.Before` — the order that the device guarantees.
* `Timeline.Respects` — an order in which the device may do the work.
* `Timeline.Holds` — a value is what the last write of a cell has left there.

## Main results

* `Timeline.Before.lt`, `Timeline.respects_id` — the order extends to the order of the submission.
* `Timeline.Before.append` — later submissions leave the order as it is.
* `Timeline.before_concat` — what the last submission of a timeline comes after.
* `Timeline.before_handoff` — a record and a wait order the work of two streams.
* `Timeline.holds_of_ordered` — a write that all other writes of a cell are ordered around.
-/

set_option autoImplicit false

namespace NNIS

/-- What is submitted to a stream: work, the record of an event or a wait for it. -/
inductive Submitted (E A : Type)
  | work (a : A)
  | record (event : E)
  | wait (event : E)
  deriving DecidableEq

/-- A submission to a stream. -/
structure Submission (S E A : Type) where
  stream : S
  submitted : Submitted E A
  deriving DecidableEq

/-- The submissions of a host, the oldest first. -/
abbrev Timeline (S E A : Type) := List (Submission S E A)

namespace Timeline

variable {S E A : Type}

/-- The submission at an index has a property. -/
def At (H : Timeline S E A) (i : ℕ) (p : Submission S E A → Prop) : Prop :=
  ∃ x, H[i]? = some x ∧ p x

section At

variable {H : Timeline S E A} {i : ℕ} {p q : Submission S E A → Prop}

theorem At.lt (h : H.At i p) : i < H.length := by
  obtain ⟨x, hx, -⟩ := h
  exact (List.getElem?_eq_some_iff.1 hx).1

theorem At.imp (h : H.At i p) (hpq : ∀ x, p x → q x) : H.At i q := by
  obtain ⟨x, hx, hp⟩ := h
  exact ⟨x, hx, hpq x hp⟩

/-- The submission at an index is one submission. -/
theorem At.and (h : H.At i p) (h' : H.At i q) : H.At i fun x => p x ∧ q x := by
  obtain ⟨x, hx, hp⟩ := h
  obtain ⟨y, hy, hq⟩ := h'
  obtain rfl : x = y := Option.some.inj (hx.symm.trans hy)
  exact ⟨x, hx, hp, hq⟩

theorem At.append (h : H.At i p) (L : Timeline S E A) : At (H ++ L) i p := by
  obtain ⟨x, hx, hp⟩ := h
  exact ⟨x, (List.getElem?_append_left (List.getElem?_eq_some_iff.1 hx).1).trans hx, hp⟩

theorem at_append_of_lt (L : Timeline S E A) (hi : i < H.length) : At (H ++ L) i p ↔ H.At i p := by
  rw [At, List.getElem?_append_left hi, At]

/-- Submissions that do not have a property leave the indices of those that do. -/
theorem at_append_of_forall_not {L : Timeline S E A} (hL : ∀ x ∈ L, ¬ p x) :
    At (H ++ L) i p ↔ H.At i p := by
  refine ⟨fun ⟨x, hx, hp⟩ => ?_, fun h => h.append L⟩
  by_cases hi : i < H.length
  · exact (at_append_of_lt L hi).1 ⟨x, hx, hp⟩
  · rw [List.getElem?_append_right (Nat.le_of_not_lt hi)] at hx
    exact absurd hp (hL x (List.mem_of_getElem? hx))

theorem at_concat (H : Timeline S E A) {x : Submission S E A} (hp : p x) :
    At (H ++ [x]) H.length p := by
  refine ⟨x, ?_, hp⟩
  rw [List.getElem?_append_right (Nat.le_refl _), Nat.sub_self]
  rfl

/-- The indices with a property after one more submission. -/
theorem at_concat_iff {x : Submission S E A} :
    At (H ++ [x]) i p ↔ H.At i p ∨ i = H.length ∧ p x := by
  constructor
  · intro h
    have hlt := h.lt
    rw [List.length_append, List.length_singleton] at hlt
    rcases Nat.lt_or_eq_of_le (Nat.le_of_lt_succ hlt) with hi | rfl
    · exact .inl ((at_append_of_lt [x] hi).1 h)
    · obtain ⟨y, hy, hp⟩ := h
      rw [List.getElem?_append_right (Nat.le_refl _), Nat.sub_self] at hy
      exact .inr ⟨rfl, Option.some.inj hy ▸ hp⟩
  · rintro (h | ⟨rfl, hp⟩)
    · exact h.append [x]
    · exact at_concat H hp

end At

/-! ### The order that the device guarantees -/

/-- One submission waits for another one: an earlier one of its stream, or the last record of the
event it waits for. -/
inductive Waits (H : Timeline S E A) : ℕ → ℕ → Prop
  | program {i j : ℕ} (s : S) (hi : H.At i (·.stream = s)) (hj : H.At j (·.stream = s))
    (hlt : i < j) : Waits H i j
  | event {i j : ℕ} (event : E) (hi : H.At i (·.submitted = .record event))
    (hj : H.At j (·.submitted = .wait event)) (hlt : i < j)
    (hlast : ∀ k, i < k → k < j → ¬ H.At k (·.submitted = .record event)) : Waits H i j

/-- One submission is done before another one is begun. -/
def Before (H : Timeline S E A) : ℕ → ℕ → Prop := Relation.TransGen H.Waits

variable {H : Timeline S E A} {i j k : ℕ}

theorem Waits.lt (h : H.Waits i j) : i < j := by
  cases h with
  | program _ _ _ hlt => exact hlt
  | event _ _ _ hlt _ => exact hlt

theorem Waits.append (h : H.Waits i j) (L : Timeline S E A) : Waits (H ++ L) i j := by
  cases h with
  | program s hi hj hlt => exact .program s (hi.append L) (hj.append L) hlt
  | event event hi hj hlt hlast =>
    refine .event event (hi.append L) (hj.append L) hlt fun k hik hkj h => hlast k hik hkj ?_
    exact (at_append_of_lt L (hkj.trans hj.lt)).1 h

namespace Before

/-- The order of the device extends to the order of the submission. -/
theorem lt (h : H.Before i j) : i < j := by
  induction h with
  | single h => exact h.lt
  | tail _ h ih => exact ih.trans h.lt

theorem trans (h : H.Before i j) (h' : H.Before j k) : H.Before i k := Relation.TransGen.trans h h'

/-- Later submissions leave the order as it is. -/
theorem append (h : H.Before i j) (L : Timeline S E A) : Before (H ++ L) i j := by
  induction h with
  | single h => exact .single (h.append L)
  | tail _ h ih => exact ih.tail (h.append L)

/-- The work of one stream is done in the order of its submission. -/
theorem of_stream {s : S} (hi : H.At i (·.stream = s)) (hj : H.At j (·.stream = s)) (hlt : i < j) :
    H.Before i j :=
  .single (.program s hi hj hlt)

end Before

/-- What a stream has been given is done before what it is given next. -/
theorem before_concat (x : Submission S E A) (hi : H.At i (·.stream = x.stream)) :
    Before (H ++ [x]) i H.length :=
  .of_stream (hi.append [x]) (at_concat H rfl) hi.lt

/-- A record on one stream and a wait on another one order the work between them. -/
theorem before_handoff (s t : S) (event : E) :
    Before (H ++ [⟨s, .record event⟩] ++ [⟨t, .wait event⟩]) H.length (H.length + 1) := by
  have hlength : (H ++ [(⟨s, .record event⟩ : Submission S E A)]).length = H.length + 1 := by
    rw [List.length_append, List.length_singleton]
  have hrecord : At (H ++ [⟨s, .record event⟩]) H.length
      fun x : Submission S E A => x.submitted = .record event := at_concat H rfl
  have hwait : At (H ++ [⟨s, .record event⟩] ++ [⟨t, .wait event⟩]) (H.length + 1)
      fun x : Submission S E A => x.submitted = .wait event := hlength ▸ at_concat _ rfl
  exact .single (.event event (hrecord.append _) hwait (Nat.lt_succ_self _)
    fun k hk hk' => absurd (Nat.lt_of_lt_of_le hk (Nat.le_of_lt_succ hk')) (Nat.lt_irrefl _))

/-! ### Orders of the device -/

/-- The device may do the work in the order of some ranks: no two are equal, and the order of the
streams and the events is respected. -/
structure Respects (H : Timeline S E A) (rank : ℕ → ℕ) : Prop where
  injective : ∀ i < H.length, ∀ j < H.length, rank i = rank j → i = j
  before : ∀ i j, H.Before i j → rank i < rank j

/-- The work may be done in the order of its submission. -/
theorem respects_id (H : Timeline S E A) : H.Respects id :=
  ⟨fun _ _ _ _ h => h, fun _ _ h => h.lt⟩

/-! ### Memory -/

section Memory

variable {V : Type} (writes : A → Option V)

/-- The write of a cell, and its value. -/
def WritesAt (H : Timeline S E A) (i : ℕ) (v : V) : Prop :=
  H.At i fun x => ∃ a, x.submitted = .work a ∧ writes a = some v

/-- When the work is done in the order of some ranks, a value is what the last write of a cell
before a submission has left there. -/
def Holds (H : Timeline S E A) (rank : ℕ → ℕ) (r : ℕ) (v : V) : Prop :=
  ∃ w, H.WritesAt writes w v ∧ rank w < rank r ∧
    ∀ x u, H.WritesAt writes x u → rank x ≤ rank w ∨ rank r ≤ rank x

variable {writes}

/-- A cell holds what a write has left there that is ordered before the reader, when every other
write of the cell is ordered before the one or after the other. -/
theorem holds_of_ordered {rank : ℕ → ℕ} (hrank : H.Respects rank) {w r : ℕ} {v : V}
    (hw : H.WritesAt writes w v) (hbefore : H.Before w r)
    (hothers : ∀ x u, H.WritesAt writes x u → x ≠ w → H.Before x w ∨ H.Before r x) :
    H.Holds writes rank r v := by
  refine ⟨w, hw, hrank.before w r hbefore, fun x u hx => ?_⟩
  by_cases hxw : x = w
  · exact .inl (hxw ▸ Nat.le_refl _)
  · exact (hothers x u hx hxw).imp (fun h => (hrank.before x w h).le)
      fun h => (hrank.before r x h).le

end Memory

end Timeline

end NNIS
