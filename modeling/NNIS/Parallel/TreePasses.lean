import Mathlib.Algebra.Module.Defs
import Mathlib.Algebra.Ring.Nat
import Mathlib.GroupTheory.GroupAction.Ring
import Mathlib.Logic.Function.Basic
import NNIS.Parallel.TreeReduction
import NNIS.Semantics.Fallible

/-!
# The passes of a tree reduction over buffers

A host loop submits the passes of a tree reduction to a stream. The first pass reads the input,
every pass but the last writes one of two scratch buffers in turn, the last one writes the output,
and each later pass reads what the pass before it has written. A device keeps the passes that it has
run; a pass that is not submitted does not run, and ends the loop.

## Main definitions

* `TreePasses.Slot`, `TreePasses.Pass`, `TreePasses.Device` — buffers, and passes over them.
* `TreePasses.run` — the host loop.
* `TreePasses.Pass.Safe` — a pass that stays inside the buffers and writes none that it reads.

## Main results

* `TreePasses.run_spec` — the loop ends, its passes are safe, and the output holds the reduction
  unless a submission fails.
-/

set_option autoImplicit false

namespace NNIS

namespace TreePasses

/-- The buffers of a reduction. -/
inductive Slot
  | input | scratchA | scratchB | output
  deriving DecidableEq

/-- A pass reads a number of elements of a buffer and writes a number of elements of another one. -/
structure Pass where
  source : Slot
  destination : Slot
  elements : ℕ
  outputs : ℕ

/-- The buffers, the passes that have run, and the stream that they have been submitted to. -/
structure Device (α σ : Type) where
  buffer : Slot → List α
  passes : List Pass
  stream : σ

/-- A pass reads inside its source, writes inside its destination, and these are different buffers.
The capacity of a buffer is its length. -/
structure Pass.Safe (capacity : Slot → ℕ) (p : Pass) : Prop where
  elements_le : p.elements ≤ capacity p.source
  outputs_le : p.outputs ≤ capacity p.destination
  source_ne : p.source ≠ p.destination

variable {α ε σ : Type} (combine : α → α → α) (empty : α) (threads : ℕ)

/-- A buffer with its first elements overwritten. -/
def overwrite (buffer values : List α) : List α := values ++ buffer.drop values.length

/-- Run one pass. -/
def Device.launch (p : Pass) (d : Device α σ) : Device α σ where
  buffer := Function.update d.buffer p.destination (overwrite (d.buffer p.destination)
    (TreeReduction.pass combine empty threads ((d.buffer p.source).take p.elements)))
  passes := d.passes ++ [p]
  stream := d.stream

/-- A device with another stream. -/
def Device.withStream (stream : σ) (d : Device α σ) : Device α σ := { d with stream }

/-- What the loop keeps between two rounds: where the elements are, how many, and which scratch
buffer is next. -/
structure Cursor where
  source : Slot
  elements : ℕ
  writeA : Bool

/-- The destination of a pass. -/
def Cursor.destination (cursor : Cursor) (outputs : ℕ) : Slot :=
  if outputs = 1 then .output else if cursor.writeA then .scratchA else .scratchB

variable (partialCount : ℕ → Except ε ℕ) (submit : Pass → Fallible σ ε PUnit)

/-- One round of the loop: count the outputs, choose the destination and submit the pass. The round
of a single output is the last. -/
def round (cursor : Cursor) : Fallible (Device α σ) ε (Cursor ⊕ PUnit) := do
  let outputs ← Fallible.ofExcept (partialCount cursor.elements)
  let destination := cursor.destination outputs
  let p : Pass := ⟨cursor.source, destination, cursor.elements, outputs⟩
  (submit p).zoom Device.stream Device.withStream
  Fallible.modify (Device.launch combine empty threads p)
  return if outputs = 1 then .inr ⟨⟩ else .inl ⟨destination, outputs, !cursor.writeA⟩

/-- The loop over the passes. It is given as many rounds as there are elements; `exhausted` would be
the error of a loop that needs more. -/
def run (exhausted : ε) (elements : ℕ) : Fallible (Device α σ) ε PUnit :=
  Fallible.loop exhausted elements ⟨.input, elements, true⟩
    (round combine empty threads partialCount submit)

variable {combine empty threads partialCount submit}

@[simp] theorem length_overwrite {buffer values : List α} (h : values.length ≤ buffer.length) :
    (overwrite buffer values).length = buffer.length := by
  rw [overwrite, List.length_append, List.length_drop]
  omega

theorem take_overwrite (buffer values : List α) :
    (overwrite buffer values).take values.length = values := by
  rw [overwrite, List.take_left]

/-- A device keeps the input and the capacities of another one, and has since run safe passes. -/
structure Since (d₀ d : Device α σ) : Prop where
  input_eq : d.buffer .input = d₀.buffer .input
  capacity_eq : ∀ slot, (d.buffer slot).length = (d₀.buffer slot).length
  passes_eq : ∃ more, d.passes = d₀.passes ++ more ∧
    ∀ p ∈ more, p.Safe fun slot => (d₀.buffer slot).length

theorem Since.refl (d : Device α σ) : Since d d :=
  ⟨rfl, fun _ => rfl, [], (List.append_nil _).symm, fun _ h => absurd h List.not_mem_nil⟩

theorem Since.withStream {d₀ d : Device α σ} (h : Since d₀ d) (stream : σ) :
    Since d₀ (d.withStream stream) :=
  ⟨h.input_eq, h.capacity_eq, h.passes_eq⟩

/-- A safe pass that does not write the input. -/
theorem Since.launch {d₀ d : Device α σ} (h : Since d₀ d) {p : Pass}
    (hsafe : p.Safe fun slot => (d₀.buffer slot).length) (hinput : p.destination ≠ .input)
    (houtputs : p.outputs = p.elements ⌈/⌉ (threads * 2)) :
    Since d₀ (d.launch combine empty threads p) := by
  have hsource : ((d.buffer p.source).take p.elements).length = p.elements := by
    rw [List.length_take, h.capacity_eq]
    exact Nat.min_eq_left hsafe.elements_le
  obtain ⟨more, hmore, hsafes⟩ := h.passes_eq
  refine ⟨?_, fun slot => ?_, more ++ [p], ?_, fun q hq => ?_⟩
  · exact (Function.update_of_ne hinput.symm _ _).trans h.input_eq
  · by_cases hslot : slot = p.destination
    · rw [hslot]
      show (Function.update d.buffer p.destination _ p.destination).length = _
      rw [Function.update_self, length_overwrite, h.capacity_eq]
      rw [TreeReduction.length_pass, hsource, ← houtputs, h.capacity_eq]
      exact hsafe.outputs_le
    · show (Function.update d.buffer p.destination _ slot).length = _
      rw [Function.update_of_ne hslot, h.capacity_eq]
  · show d.passes ++ [p] = _
    rw [hmore, List.append_assoc]
  · rcases List.mem_append.1 hq with hq | hq
    · exact hsafes q hq
    · rw [List.mem_singleton.1 hq]
      exact hsafe

/-- A device after some rounds: the elements that are left reduce to a result, and the next scratch
buffer is not the one that holds them. -/
structure Reducing (combine : α → α → α) (empty : α) (threads : ℕ) (d₀ : Device α σ)
    (n : ℕ) (result : α) (rounds : ℕ) (cursor : Cursor) (d : Device α σ) :
    Prop extends Since d₀ d where
  elements_pos : 0 < cursor.elements
  elements_le : cursor.elements ≤ n
  source_le : cursor.elements ≤ (d₀.buffer cursor.source).length
  reduce_eq : TreeReduction.reduceIn combine empty threads rounds
    ((d.buffer cursor.source).take cursor.elements) = some result
  source_ne : cursor.source ≠ .output
  scratch_ne : cursor.source ≠ if cursor.writeA then .scratchA else .scratchB
  output_eq : d.buffer .output = d₀.buffer .output

/-- A device after all rounds. -/
structure Reduced (d₀ : Device α σ) (result : α) (d : Device α σ) : Prop extends Since d₀ d where
  output_eq : d.buffer .output = overwrite (d₀.buffer .output) [result]

/-- The scratch buffers hold the outputs of every pass over some elements of the input, and there is
an output. -/
structure Fits (threads n : ℕ) (d : Device α σ) : Prop where
  input_le : n ≤ (d.buffer .input).length
  scratchA_le : n ⌈/⌉ (threads * 2) ≤ (d.buffer .scratchA).length
  scratchB_le : n ⌈/⌉ (threads * 2) ≤ (d.buffer .scratchB).length
  output_pos : 0 < (d.buffer .output).length

/-- The outputs of a pass over at most some number of elements. -/
structure Pass.Reduces (threads n : ℕ) (p : Pass) : Prop where
  elements_pos : 0 < p.elements
  outputs_eq : p.outputs = p.elements ⌈/⌉ (threads * 2)
  outputs_le : p.outputs ≤ n ⌈/⌉ (threads * 2)

section Run

variable {d₀ : Device α σ} {n : ℕ} {result : α} (k : ℕ) {I : σ → Prop} {E : ε → σ → Prop}

private theorem span_pos : 0 < 2 ^ k * 2 := Nat.mul_pos (Nat.two_pow_pos k) Nat.two_pos

/-- More elements take at least as many blocks. -/
theorem ceilDiv_mono {m n span : ℕ} (hspan : 0 < span) (h : m ≤ n) : m ⌈/⌉ span ≤ n ⌈/⌉ span :=
  (ceilDiv_le_iff_le_mul hspan).2 (h.trans ((ceilDiv_le_iff_le_mul hspan).1 le_rfl))

theorem ceilDiv_pos {n span : ℕ} (hspan : 0 < span) (h : 0 < n) : 0 < n ⌈/⌉ span := by
  refine Nat.pos_of_ne_zero fun hzero => ?_
  have hcover := (ceilDiv_le_iff_le_mul hspan).1 hzero.le
  omega

/-- A pass of a round: the destination is not read, and holds the outputs. -/
private theorem pass_safe (hfits : Fits (2 ^ k) n d₀) {rounds : ℕ} {cursor : Cursor}
    {d : Device α σ}
    (hd : Reducing combine empty (2 ^ k) d₀ n result rounds cursor d) {p : Pass}
    (hp : p = ⟨cursor.source, cursor.destination (cursor.elements ⌈/⌉ (2 ^ k * 2)), cursor.elements,
      cursor.elements ⌈/⌉ (2 ^ k * 2)⟩) :
    p.destination ≠ .input ∧ (p.Safe fun slot => (d₀.buffer slot).length) ∧
      p.Reduces (2 ^ k) n := by
  have hspan := span_pos k
  generalize hout : cursor.elements ⌈/⌉ (2 ^ k * 2) = outputs at hp
  have houtputs : outputs ≤ n ⌈/⌉ (2 ^ k * 2) := hout ▸ ceilDiv_mono hspan hd.elements_le
  subst hp
  have hdestination : cursor.destination outputs ≠ .input ∧
      cursor.source ≠ cursor.destination outputs ∧
      outputs ≤ (d₀.buffer (cursor.destination outputs)).length := by
    have hne := hd.source_ne
    have hscratch := hd.scratch_ne
    unfold Cursor.destination
    split_ifs with hone hwrite
    · exact ⟨(fun h => by cases h), hne, hone ▸ hfits.output_pos⟩
    · rw [if_pos hwrite] at hscratch
      exact ⟨(fun h => by cases h), hscratch, houtputs.trans hfits.scratchA_le⟩
    · rw [if_neg hwrite] at hscratch
      exact ⟨(fun h => by cases h), hscratch, houtputs.trans hfits.scratchB_le⟩
  obtain ⟨hinput, hsource, hcapacity⟩ := hdestination
  exact ⟨hinput, ⟨hd.source_le, hcapacity, hsource⟩, hd.elements_pos, hout.symm, houtputs⟩

/-- A pass that has been submitted leads to the next round, or is the last one. -/
private theorem launch_reducing (hfits : Fits (2 ^ k) n d₀) {rounds : ℕ} {cursor : Cursor}
    {d : Device α σ} (hd : Reducing combine empty (2 ^ k) d₀ n result (rounds + 1) cursor d)
    {outputs : ℕ} (hout : cursor.elements ⌈/⌉ (2 ^ k * 2) = outputs) (stream : σ) :
    let d' := (d.withStream stream).launch combine empty (2 ^ k)
      ⟨cursor.source, cursor.destination outputs, cursor.elements, outputs⟩
    if outputs = 1 then Reduced d₀ result d'
    else Reducing combine empty (2 ^ k) d₀ n result rounds
      ⟨cursor.destination outputs, outputs, !cursor.writeA⟩ d' := by
  have hspan := span_pos k
  have hreduce := hd.reduce_eq
  have hpos : 0 < outputs := hout ▸ ceilDiv_pos hspan hd.elements_pos
  generalize hp : (⟨cursor.source, cursor.destination outputs, cursor.elements, outputs⟩ : Pass) = p
  obtain ⟨hinput, hsafe, hpasses⟩ := pass_safe k hfits hd (hout ▸ hp.symm)
  have hcapacity : outputs ≤ (d₀.buffer (cursor.destination outputs)).length := by
    have hle := hsafe.outputs_le
    rwa [← hp] at hle
  have hsince : Since d₀ ((d.withStream stream).launch combine empty (2 ^ k) p) :=
    (hd.toSince.withStream stream).launch hsafe hinput hpasses.outputs_eq
  -- The values that the pass writes.
  generalize hvalues : TreeReduction.pass combine empty (2 ^ k)
    ((d.buffer cursor.source).take cursor.elements) = values
  have hlength : values.length = outputs := by
    rw [← hvalues, TreeReduction.length_pass, List.length_take, hd.capacity_eq,
      Nat.min_eq_left hd.source_le, hout]
  have hbuffer (slot : Slot) :
      ((d.withStream stream).launch combine empty (2 ^ k) p).buffer slot =
        if slot = cursor.destination outputs then overwrite (d.buffer slot) values
        else d.buffer slot := by
    rw [← hp, ← hvalues]
    show Function.update d.buffer (cursor.destination outputs) _ slot = _
    by_cases hslot : slot = cursor.destination outputs
    · rw [if_pos hslot, hslot, Function.update_self]
      rfl
    · rw [if_neg hslot, Function.update_of_ne hslot]
  rw [TreeReduction.reduceIn, hvalues, hlength] at hreduce
  dsimp only
  by_cases hone : outputs = 1
  · rw [if_pos hone]
    refine ⟨hsince, ?_⟩
    rw [if_pos hone] at hreduce
    obtain ⟨value, rfl⟩ := List.length_eq_one_iff.1 (hlength.trans hone)
    obtain rfl := Option.some.inj hreduce
    rw [hbuffer, if_pos (by rw [Cursor.destination, if_pos hone]), hd.output_eq]
  · rw [if_neg hone] at hreduce ⊢
    have hdest : cursor.destination outputs = if cursor.writeA then .scratchA else .scratchB := by
      rw [Cursor.destination, if_neg hone]
    refine ⟨hsince, hpos, ?_, hcapacity, ?_, ?_, ?_, ?_⟩
    · refine le_trans ?_ hd.elements_le
      rw [← hout]
      exact (ceilDiv_le_iff_le_mul hspan).2 (Nat.le_mul_of_pos_left _ hspan)
    · rw [hbuffer, if_pos rfl, ← hlength, take_overwrite]
      exact hreduce
    · rw [hdest]
      split_ifs <;> exact fun h => by cases h
    · rw [hdest]
      cases cursor.writeA <;> exact fun h => by cases h
    · rw [hbuffer, if_neg, hd.output_eq]
      rw [hdest]
      split_ifs <;> exact fun h => by cases h

/-- One round of the loop. The submission keeps an invariant of the stream. -/
theorem round_spec (hfits : Fits (2 ^ k) n d₀)
    (hcount : ∀ m, 0 < m → m ≤ n → partialCount m = .ok (m ⌈/⌉ (2 ^ k * 2)))
    (hsubmit : ∀ p, p.Reduces (2 ^ k) n → (p.Safe fun slot => (d₀.buffer slot).length) →
      Fallible.Spec I (submit p) (fun _ => I) E) (rounds : ℕ) (cursor : Cursor) :
    Fallible.Spec (fun d => Reducing combine empty (2 ^ k) d₀ n result (rounds + 1) cursor d ∧
        I d.stream) (round combine empty (2 ^ k) partialCount submit cursor)
      (fun r d => r.elim
        (fun cursor' d => Reducing combine empty (2 ^ k) d₀ n result rounds cursor' d ∧ I d.stream)
        (fun _ d => Reduced d₀ result d ∧ I d.stream) d)
      fun e d => Since d₀ d ∧ E e d.stream := by
  refine Fallible.Spec.of_forall fun d hd => ?_
  obtain ⟨hd, hstream⟩ := hd
  obtain ⟨-, hsafe, hpasses⟩ := pass_safe k hfits hd rfl
  have hnext := launch_reducing k hfits hd rfl
  rw [round, hcount _ hd.elements_pos hd.elements_le, Fallible.ofExcept_ok_bind]
  refine ((hsubmit _ hpasses hsafe).zoom d).conseq (fun s hs => ⟨hs, hs ▸ hstream⟩) (fun _ _ h => h)
    (fun e s hs => ?_) |>.bind fun _ => Fallible.Spec.bind (Fallible.Spec.modify _ fun s hs => ?_)
      fun _ => Fallible.Spec.pure _ fun s hs => hs
  · obtain ⟨stream, hE, rfl⟩ := hs
    exact ⟨hd.toSince.withStream stream, hE⟩
  · obtain ⟨stream, hI, rfl⟩ := hs
    have h := hnext stream
    split_ifs at h ⊢ with hone
    · exact ⟨h, hI⟩
    · exact ⟨h, hI⟩

/-- The loop ends; all of its passes are safe, and the output holds the reduction of the first
elements of the input. A failed submission ends it early. -/
theorem run_spec (exhausted : ε) (hn : 0 < n) (hfits : Fits (2 ^ k) n d₀)
    (hcount : ∀ m, 0 < m → m ≤ n → partialCount m = .ok (m ⌈/⌉ (2 ^ k * 2)))
    (hI : I d₀.stream)
    (hsubmit : ∀ p, p.Reduces (2 ^ k) n → (p.Safe fun slot => (d₀.buffer slot).length) →
      Fallible.Spec I (submit p) (fun _ => I) E)
    (hreduce : TreeReduction.reduce combine empty (2 ^ k) ((d₀.buffer .input).take n) =
      some result) :
    Fallible.Spec (fun d => d = d₀) (run combine empty (2 ^ k) partialCount submit exhausted n)
      (fun _ d => Reduced d₀ result d ∧ I d.stream) fun e d => Since d₀ d ∧ E e d.stream := by
  refine (Fallible.Spec.loop (fun rounds cursor d =>
    Reducing combine empty (2 ^ k) d₀ n result rounds cursor d ∧ I d.stream)
    (fun cursor d hd => ?_) (fun rounds cursor => (round_spec k hfits hcount hsubmit rounds
      cursor).conseq (fun _ h => h) (fun r d h => ?_) fun _ _ h => h) n ⟨.input, n, true⟩).conseq ?_
      (fun _ _ hd => hd) fun _ _ hd => hd
  · exact nomatch hd.1.reduce_eq
  · cases r <;> exact h
  · rintro d rfl
    refine ⟨⟨.refl d, hn, le_rfl, hfits.input_le, ?_, nofun, nofun, rfl⟩, hI⟩
    rw [TreeReduction.reduce, List.length_take, Nat.min_eq_left hfits.input_le] at hreduce
    exact hreduce

end Run

end TreePasses

end NNIS
