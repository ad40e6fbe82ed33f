import Mathlib.Data.List.Perm.Basic
import Mathlib.Data.Nat.Notation
import Mathlib.Logic.Function.Basic

/-!
# Blocks of threads with barriers

A thread reads and writes the cells of a memory that it shares with the other threads of its block,
and waits at barriers. Between two barriers the threads of a block run their parts one after the
other, in an order that may be another one for every phase.

## Main definitions

* `Thread`, `Thread.advance`, `Thread.accesses` — a thread, and its part of a phase.
* `Block`, `Block.phase`, `Block.run` — the threads of a block, phase after phase.
* `Block.Ends` — what a schedule leaves when all threads are done.
* `Block.Races` — in a phase a thread reads a cell that another one writes.

## Main results

* `Block.ends_iff` — a block that is done stays as it is.
-/

set_option autoImplicit false

namespace NNIS

/-- An access of a cell. -/
inductive Access (C : Type)
  | read (cell : C)
  | write (cell : C)
  deriving DecidableEq

/-- A thread over cells `C`, where a cell holds values of its own type. -/
inductive Thread (C : Type) (Val : C → Type) (α : Type)
  | pure (result : α)
  | read (cell : C) (next : Val cell → Thread C Val α)
  | write (cell : C) (value : Val cell) (next : Thread C Val α)
  | sync (next : Thread C Val α)

namespace Thread

variable {C : Type} {Val : C → Type} {α β ι : Type}

/-- Continue with the result of a thread. -/
protected def bind : Thread C Val α → (α → Thread C Val β) → Thread C Val β
  | .pure a, f => f a
  | .read c k, f => .read c fun v => (k v).bind f
  | .write c v k, f => .write c v (k.bind f)
  | .sync k, f => .sync (k.bind f)

instance : Monad (Thread C Val) where
  pure := .pure
  bind := Thread.bind

/-- Read a cell. -/
def load (c : C) : Thread C Val (Val c) := .read c .pure

/-- Write a cell. -/
def store (c : C) (v : Val c) : Thread C Val Unit := .write c v (.pure ())

/-- Wait for the other threads of the block. -/
def barrier : Thread C Val Unit := .sync (.pure ())

/-- A loop over a list. -/
def forEach : List ι → (ι → Thread C Val Unit) → Thread C Val Unit
  | [], _ => .pure ()
  | i :: l, body => body i >>= fun _ => forEach l body

/-- A loop over a list with an accumulator. -/
def fold : List ι → α → (α → ι → Thread C Val α) → Thread C Val α
  | [], a, _ => .pure a
  | i :: l, a, body => body a i >>= fun a => fold l a body

theorem bind_assoc {γ : Type} (p : Thread C Val α) (f : α → Thread C Val β)
    (g : β → Thread C Val γ) : p >>= f >>= g = p >>= fun a => f a >>= g := by
  induction p with
  | pure a => rfl
  | read c k ih => exact congrArg (Thread.read c) (funext ih)
  | write c v k ih => exact congrArg (Thread.write c v) ih
  | sync k ih => exact congrArg Thread.sync ih

section Memory

variable [DecidableEq C]

/-- Run a thread up to its next barrier, or to its end. -/
def advance : Thread C Val α → ((c : C) → Val c) → Thread C Val α × ((c : C) → Val c)
  | .pure a, m => (.pure a, m)
  | .read c k, m => (k (m c)).advance m
  | .write c v k, m => k.advance (Function.update m c v)
  | .sync k, m => (k, m)

/-- The accesses of a thread up to its next barrier, or to its end. -/
def accesses : Thread C Val α → ((c : C) → Val c) → List (Access C)
  | .pure _, _ => []
  | .read c k, m => .read c :: (k (m c)).accesses m
  | .write c v k, m => .write c :: k.accesses (Function.update m c v)
  | .sync _, _ => []

end Memory

end Thread

/-! ### Blocks -/

/-- The threads of a block and their memory. -/
@[ext] structure Block (C : Type) (Val : C → Type) (α : Type) where
  thread : ℕ → Thread C Val α
  memory : (c : C) → Val c

namespace Block

variable {C : Type} {Val : C → Type} {α : Type} [DecidableEq C]

/-- Run the part of one thread. -/
def turn (b : Block C Val α) (t : ℕ) : Block C Val α where
  thread := Function.update b.thread t ((b.thread t).advance b.memory).1
  memory := ((b.thread t).advance b.memory).2

/-- Run a phase: the parts of the threads one after the other. -/
def phase (b : Block C Val α) (order : List ℕ) : Block C Val α := order.foldl turn b

/-- Run a number of phases, each in an order of its own. -/
def run (schedule : ℕ → List ℕ) (b : Block C Val α) : ℕ → Block C Val α
  | 0 => b
  | n + 1 => (run schedule b n).phase (schedule n)

/-- In every phase each of `width` threads runs once. -/
def IsSchedule (width : ℕ) (schedule : ℕ → List ℕ) : Prop :=
  ∀ n, (schedule n).Perm (List.range width)

/-- All of `width` threads are done. -/
def Finished (width : ℕ) (b : Block C Val α) : Prop := ∀ t < width, ∃ a, b.thread t = .pure a

/-- Under a schedule the threads of a block leave a memory when they are done. -/
def Ends (width : ℕ) (b : Block C Val α) (schedule : ℕ → List ℕ) (m : (c : C) → Val c) : Prop :=
  ∃ n, Finished width (run schedule b n) ∧ (run schedule b n).memory = m

/-- The accesses of a thread in a phase, in which it runs after the threads before it. -/
def accessesOf (b : Block C Val α) (order : List ℕ) (t : ℕ) : List (Access C) :=
  ((b.phase (order.takeWhile (· ≠ t))).thread t).accesses
    (b.phase (order.takeWhile (· ≠ t))).memory

/-- In a phase a thread reads a cell that a different thread writes. -/
def Races (b : Block C Val α) (order : List ℕ) : Prop :=
  ∃ t ∈ order, ∃ u ∈ order, t ≠ u ∧
    ∃ c, .read c ∈ b.accessesOf order t ∧ .write c ∈ b.accessesOf order u

@[simp] theorem phase_nil (b : Block C Val α) : b.phase [] = b := rfl

@[simp] theorem phase_cons (b : Block C Val α) (t : ℕ) (order : List ℕ) :
    b.phase (t :: order) = (b.turn t).phase order := rfl

/-- The first phase of a run. -/
theorem run_succ (schedule : ℕ → List ℕ) (b : Block C Val α) (n : ℕ) :
    run schedule b (n + 1) = run (fun i => schedule (i + 1)) (b.phase (schedule 0)) n := by
  induction n with
  | zero => rfl
  | succ n ih => rw [run, ih, run]

theorem turn_thread_of_ne (b : Block C Val α) {t u : ℕ} (h : u ≠ t) :
    (b.turn t).thread u = b.thread u := Function.update_of_ne h ..

theorem turn_thread_self (b : Block C Val α) (t : ℕ) :
    (b.turn t).thread t = ((b.thread t).advance b.memory).1 := Function.update_self ..

theorem phase_thread_of_notMem {t : ℕ} {order : List ℕ} (b : Block C Val α) (h : t ∉ order) :
    (b.phase order).thread t = b.thread t := by
  induction order generalizing b with
  | nil => rfl
  | cons u order ih =>
    rw [List.mem_cons, not_or] at h
    rw [phase_cons, ih _ h.2, turn_thread_of_ne b h.1]

/-- A thread that is done changes nothing. -/
theorem turn_of_pure {b : Block C Val α} {t : ℕ} {a : α} (h : b.thread t = .pure a) :
    b.turn t = b := by
  have hadvance : (b.thread t).advance b.memory = (b.thread t, b.memory) := by
    rw [h]
    rfl
  rw [turn, hadvance, Function.update_eq_self]

/-- A block that is done stays as it is. -/
theorem phase_of_finished {width : ℕ} {b : Block C Val α} (h : Finished width b) {order : List ℕ}
    (horder : ∀ t ∈ order, t < width) : b.phase order = b := by
  induction order with
  | nil => rfl
  | cons t order ih =>
    obtain ⟨a, ha⟩ := h t (horder t List.mem_cons_self)
    rw [phase_cons, turn_of_pure ha]
    exact ih fun u hu => horder u (List.mem_cons_of_mem t hu)

theorem run_of_finished {width : ℕ} {b : Block C Val α} {schedule : ℕ → List ℕ}
    (hschedule : IsSchedule width schedule) {n : ℕ}
    (h : Finished width (run schedule b n)) (k : ℕ) :
    run schedule b (n + k) = run schedule b n := by
  induction k with
  | zero => rfl
  | succ k ih =>
    rw [← Nat.add_assoc, run, ih]
    exact phase_of_finished h fun t ht => List.mem_range.1 ((hschedule _).mem_iff.1 ht)

/-- What a schedule leaves is what it leaves after any number of phases after which all threads are
done. -/
theorem ends_iff {width : ℕ} {b : Block C Val α} {schedule : ℕ → List ℕ}
    (hschedule : IsSchedule width schedule) {n : ℕ} (h : Finished width (run schedule b n))
    (m : (c : C) → Val c) : Ends width b schedule m ↔ (run schedule b n).memory = m := by
  refine ⟨?_, fun hm => ⟨n, h, hm⟩⟩
  rintro ⟨n', h', rfl⟩
  rcases Nat.le_total n n' with hle | hle
  · obtain ⟨k, rfl⟩ := Nat.exists_eq_add_of_le hle
    rw [run_of_finished hschedule h]
  · obtain ⟨k, rfl⟩ := Nat.exists_eq_add_of_le hle
    rw [run_of_finished hschedule h']

end Block

end NNIS
