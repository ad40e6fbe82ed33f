import Mathlib.Algebra.Order.BigOperators.Group.List
import Mathlib.Tactic.IntervalCases
import NNIS.Rt.PoolOrder

/-!
# Programs with a pool

What every call of a pool submits, and the order of the accesses of every program. The order needs
that a kernel is given a buffer on a stream that has access to it, and that the driver accepts the
calls of a drop, which has no way to report a refusal; all other calls may be refused.

## Main definitions

* `Gives`, `Stays`, `PooledBuffer.Uses` — what a computation submits.
* `PoolSystem.Obeys` — the conditions on a program.

## Main results

* `PooledBuffer.shareWith_spec`, `PooledBuffer.drop_spec`, `StreamOrderedAllocator.alloc_spec`.
* `PoolSystem.accesses_ordered` — the order of the accesses of every program, and of what a stream
  is given that has been granted access.
* `PoolSystem.reads_isolated` — what a program reads.
-/

set_option autoImplicit false

namespace NNIS

open Fallible PoolTimeline

/-! ### Calls of the driver -/

/-- The driver has been called and has got some submissions. -/
structure PoolRuntime.Goes (L : PoolTimeline) (s s' : PoolRuntime) : Prop where
  refuse_eq : s'.refuse = s.refuse
  calls_le : s.calls ≤ s'.calls
  buffers_eq : s'.buffers = s.buffers
  live_eq : s'.live = s.live
  timeline_eq : s'.timeline = s.timeline ++ L

/-- The driver has accepted the calls between two states. -/
def PoolRuntime.Accepted (s s' : PoolRuntime) : Prop :=
  ∀ n, s.calls ≤ n → n < s'.calls → s.refuse n = none

open PoolRuntime

section Goes

variable {L L' : PoolTimeline} {s s' s'' : PoolRuntime}

theorem PoolRuntime.Goes.refl (s : PoolRuntime) : Goes [] s s :=
  ⟨rfl, Nat.le_refl _, rfl, rfl, (List.append_nil _).symm⟩

theorem PoolRuntime.Goes.trans (h : Goes L s s') (h' : Goes L' s' s'') : Goes (L ++ L') s s'' where
  refuse_eq := h'.refuse_eq.trans h.refuse_eq
  calls_le := h.calls_le.trans h'.calls_le
  buffers_eq := h'.buffers_eq.trans h.buffers_eq
  live_eq := h'.live_eq.trans h.live_eq
  timeline_eq := by rw [h'.timeline_eq, h.timeline_eq, List.append_assoc]

theorem PoolRuntime.Goes.refused (h : Goes L s s') (hrefused : ¬ Accepted s' s'') :
    ¬ Accepted s s'' := by
  intro haccepted
  refine hrefused fun n hn hlt => ?_
  rw [h.refuse_eq]
  exact haccepted n (h.calls_le.trans hn) hlt

theorem PoolRuntime.Accepted.left (h : Accepted s s'') (hcalls : s'.calls ≤ s''.calls) :
    Accepted s s' :=
  fun n hn hlt => h n hn (hlt.trans_le hcalls)

theorem PoolRuntime.Accepted.right (h : Accepted s s'') (h' : Goes L s s') : Accepted s' s'' := by
  intro n hn hlt
  rw [h'.refuse_eq]
  exact h n (h'.calls_le.trans hn) hlt

end Goes

/-- The driver has refused a call, and nothing has been submitted to the memory of a buffer. -/
def Refused (s₀ s : PoolRuntime) : Prop :=
  ∃ L, (∀ x ∈ L, Neutral x) ∧ Goes L s₀ s ∧ ¬ Accepted s₀ s

/-- A computation submits what is said of it; it fails only when the driver has refused a call, and
then it has submitted nothing to the memory of a buffer. -/
def Gives {α : Type} (m : PoolM α) (Q : α → PoolTimeline → Prop) : Prop :=
  ∀ s₀, Spec (fun s => s = s₀) m (fun a s => ∃ L, Q a L ∧ Goes L s₀ s)
    fun _ s => Refused s₀ s

/-- Whether a computation returns or fails, it has submitted nothing to the memory of a buffer. -/
def Stays {α : Type} (m : PoolM α) : Prop :=
  ∀ s₀, Spec (fun s => s = s₀) m (fun _ s => ∃ L, (∀ x ∈ L, Neutral x) ∧ Goes L s₀ s)
    fun _ s => ∃ L, (∀ x ∈ L, Neutral x) ∧ Goes L s₀ s

theorem neutral_nil : ∀ x ∈ ([] : PoolTimeline), Neutral x := fun _ hx => absurd hx List.not_mem_nil

section Gives

variable {α β : Type} {m : PoolM α} {Q : α → PoolTimeline → Prop}

theorem Gives.bind (h : Gives m Q) (hneutral : ∀ a L, Q a L → ∀ x ∈ L, Neutral x)
    {f : α → PoolM β} {R : β → PoolTimeline → Prop}
    (hf : ∀ a L, Q a L → Gives (f a) fun b L' => R b (L ++ L')) : Gives (m >>= f) R := by
  intro s₀
  refine Spec.bind (h s₀) fun a => Spec.of_forall fun s₁ hs₁ => ?_
  obtain ⟨L, hQ, hgoes⟩ := hs₁
  refine (hf a L hQ s₁).conseq (fun _ hs => hs) ?_ ?_
  · rintro b s ⟨L', hR, hgoes'⟩
    exact ⟨L ++ L', hR, hgoes.trans hgoes'⟩
  · rintro e s ⟨L', hL', hgoes', hrefused⟩
    exact ⟨L ++ L', List.forall_mem_append.2 ⟨hneutral a L hQ, hL'⟩, hgoes.trans hgoes',
      hgoes.refused hrefused⟩

theorem Gives.imp (h : Gives m Q) {Q' : α → PoolTimeline → Prop} (hQ : ∀ a L, Q a L → Q' a L) :
    Gives m Q' :=
  fun s₀ => (h s₀).conseq (fun _ hs => hs) (fun a _ ⟨L, hL, hgoes⟩ => ⟨L, hQ a L hL, hgoes⟩)
    fun _ _ h => h

theorem Gives.stays (h : Gives m Q) (hneutral : ∀ a L, Q a L → ∀ x ∈ L, Neutral x) : Stays m :=
  fun s₀ => (h s₀).conseq (fun _ hs => hs)
    (fun a _ ⟨L, hQ, hgoes⟩ => ⟨L, hneutral a L hQ, hgoes⟩)
    fun _ _ ⟨L, hL, hgoes, _⟩ => ⟨L, hL, hgoes⟩

theorem stays_fail (e : NnisError) : Stays (Fallible.fail e : PoolM α) :=
  fun _ => Spec.fail e fun s hs => ⟨[], neutral_nil, hs ▸ Goes.refl s⟩

theorem gives_pure (a : α) : Gives (pure a) fun b L => b = a ∧ L = [] :=
  fun _ => Spec.pure a fun s hs => ⟨[], ⟨rfl, rfl⟩, hs ▸ Goes.refl s⟩

/-- A call submits nothing. -/
theorem nativeCall_spec (s₀ : PoolRuntime) :
    Spec (fun s => s = s₀) nativeCall (fun _ s => Goes [] s₀ s)
      fun _ s => Goes [] s₀ s ∧ ¬ Accepted s₀ s := by
  rintro s rfl
  have hgoes : Goes [] s { s with calls := s.calls + 1 } :=
    ⟨rfl, Nat.le_succ _, rfl, rfl, (List.append_nil _).symm⟩
  cases h : s.refuse s.calls with
  | none =>
    simp only [nativeCall, h, Fallible.Post]
    exact hgoes
  | some description =>
    simp only [nativeCall, h, Fallible.Post]
    refine ⟨hgoes, fun haccepted => ?_⟩
    cases h.symm.trans (haccepted s.calls (Nat.le_refl _) (Nat.lt_succ_self _))

theorem gives_nativeCall : Gives nativeCall fun _ L => L = [] :=
  fun s₀ => (nativeCall_spec s₀).conseq (fun _ hs => hs) (fun _ _ hgoes => ⟨[], rfl, hgoes⟩)
    fun _ _ ⟨hgoes, hrefused⟩ => ⟨[], neutral_nil, hgoes, hrefused⟩

theorem gives_submit (stream : CudaStream) (x : Submitted ℕ PoolWork) :
    Gives (submit stream x) fun _ L => L = [⟨stream, x⟩] := by
  refine fun s₀ => Spec.modify _ fun s hs => ?_
  subst hs
  exact ⟨_, rfl, rfl, Nat.le_refl _, rfl, rfl, rfl⟩

/-- A computation whose failure is dealt with. -/
theorem Gives.attempt (h : Gives m Q) {L : PoolTimeline}
    (hL : ∀ x ∈ L, Neutral x) (s₀ : PoolRuntime) :
    Spec (fun s => Goes L s₀ s) m.attempt
      (Spec.Returned (fun a s => ∃ L', Q a L' ∧ Goes (L ++ L') s₀ s) fun _ s => Refused s₀ s)
      fun _ _ => False := by
  refine Spec.attempt (Spec.of_forall fun s₁ hs₁ => (h s₁).conseq (fun _ hs => hs) ?_ ?_)
  · rintro a s ⟨L', hQ, hgoes⟩
    exact ⟨L', hQ, hs₁.trans hgoes⟩
  · rintro e s ⟨L', hL', hgoes, hrefused⟩
    exact ⟨L ++ L', List.forall_mem_append.2 ⟨hL, hL'⟩, hs₁.trans hgoes, hs₁.refused hrefused⟩

/-- A call before the rest of a computation. -/
theorem Gives.after_call {f : Unit → PoolM β} {R : β → PoolTimeline → Prop}
    (hf : ∀ a, Gives (f a) R) : Gives (nativeCall >>= f) R :=
  gives_nativeCall.bind (fun _ _ hL => hL ▸ neutral_nil) fun a L hL => by
    rw [hL]
    exact hf a

end Gives

theorem CudaEvent.gives_new (ctx : ℕ) :
    Gives (CudaEvent.new ctx) fun event L => event.ctx = ctx ∧ L = [] := by
  refine .after_call fun _ => .after_call fun _ => ?_
  rintro _ s rfl
  exact ⟨[], ⟨rfl, rfl⟩, rfl, Nat.le_refl _, rfl, rfl, (List.append_nil _).symm⟩

theorem CudaEvent.gives_record {event : CudaEvent} {stream : CudaStream}
    (hctx : event.ctx = stream.ctx) :
    Gives (event.record stream) fun _ L => L = [⟨stream, .record event.raw⟩] := by
  rw [CudaEvent.record, if_pos hctx]
  exact .after_call fun _ => .after_call fun _ => gives_submit stream _

theorem CudaStream.gives_waitEvent {stream : CudaStream} {event : CudaEvent}
    (hctx : stream.ctx = event.ctx) :
    Gives (stream.waitEvent event) fun _ L => L = [⟨stream, .wait event.raw⟩] := by
  rw [CudaStream.waitEvent, if_pos hctx]
  exact .after_call fun _ => .after_call fun _ => gives_submit stream _

theorem neutral_record (stream : CudaStream) (event : ℕ) : Neutral ⟨stream, .record event⟩ :=
  fun _ h => by cases h

theorem neutral_wait (stream : CudaStream) (event : ℕ) : Neutral ⟨stream, .wait event⟩ :=
  fun _ h => by cases h

theorem neutral_singleton {x : Submission CudaStream ℕ PoolWork} (hx : Neutral x) {L : PoolTimeline}
    (hL : L = [x]) : ∀ y ∈ L, Neutral y := by
  intro y hy
  rw [hL, List.mem_singleton] at hy
  exact hy ▸ hx

/-- Whether a stream is waited for or not, nothing is submitted. -/
theorem CudaStream.synchronize_spec (stream : CudaStream) (s₀ : PoolRuntime) :
    Spec (fun s => s = s₀) stream.synchronize (fun _ s => Goes [] s₀ s) fun _ s =>
      Goes [] s₀ s := by
  refine Spec.bind ((nativeCall_spec s₀).conseq (fun _ hs => hs) (fun _ _ h => h) fun _ _ h => h.1)
    fun _ => Spec.of_forall fun s₁ hs₁ => ?_
  exact (nativeCall_spec s₁).conseq (fun _ hs => hs) (fun _ _ h => hs₁.trans h)
    fun _ _ h => hs₁.trans h.1

theorem CudaEvent.stays_record (event : CudaEvent) (stream : CudaStream) :
    Stays (event.record stream) := by
  by_cases hctx : event.ctx = stream.ctx
  · exact (CudaEvent.gives_record hctx).stays fun _ _ hL =>
      neutral_singleton (neutral_record stream event.raw) hL
  · rw [CudaEvent.record, if_neg hctx]
    exact stays_fail _

theorem CudaStream.stays_waitEvent (stream : CudaStream) (event : CudaEvent) :
    Stays (stream.waitEvent event) := by
  by_cases hctx : stream.ctx = event.ctx
  · exact (CudaStream.gives_waitEvent hctx).stays fun _ _ hL =>
      neutral_singleton (neutral_wait stream event.raw) hL
  · rw [CudaStream.waitEvent, if_neg hctx]
    exact stays_fail _

/-- An event that is recorded on one stream and waited for on another one. -/
def handoff (s t : CudaStream) (event : ℕ) : PoolTimeline := [⟨s, .record event⟩, ⟨t, .wait event⟩]

theorem neutral_handoff (s t : CudaStream) (event : ℕ) : ∀ x ∈ handoff s t event, Neutral x :=
  List.forall_mem_cons.2 ⟨neutral_record s event,
    List.forall_mem_cons.2 ⟨neutral_wait t event, neutral_nil⟩⟩

/-- What the one stream has been given is done before the wait. -/
theorem before_handoff {H : PoolTimeline} {s t : CudaStream} {x : ℕ} (hx : On H x s) (event : ℕ) :
    Timeline.Before (H ++ handoff s t event) x (H.length + 1) := by
  have hsplit : H ++ handoff s t event = H ++ [⟨s, .record event⟩] ++ [⟨t, .wait event⟩] := by
    rw [List.append_assoc]
    rfl
  have hrecord : Timeline.Before (H ++ [⟨s, .record event⟩]) x H.length :=
    Timeline.before_concat ⟨s, .record event⟩ hx
  rw [hsplit]
  exact (hrecord.append _).trans (Timeline.before_handoff s t event)

theorem on_handoff (H : PoolTimeline) (s t : CudaStream) (event : ℕ) :
    On (H ++ handoff s t event) (H.length + 1) t := by
  refine ⟨⟨t, .wait event⟩, ?_, rfl⟩
  rw [List.getElem?_append_right (Nat.le_add_right _ 1), Nat.add_sub_cancel_left]
  rfl

namespace PooledBuffer

variable (b : PooledBuffer)

theorem stream_eq_of_raw {s t : CudaStream} (hctx : s.ctx = t.ctx) (hraw : s.raw = t.raw) :
    s = t := by
  obtain ⟨raw, ctx⟩ := s
  obtain ⟨raw', ctx'⟩ := t
  obtain rfl : raw = raw' := hraw
  obtain rfl : ctx = ctx' := hctx
  rfl

/-- A stream with access is the allocating one or has been granted it. -/
theorem mem_of_ensureStreamAccess {stream : CudaStream}
    (hctx : ∀ c ∈ b.consumers, c.ctx = b.stream.ctx)
    (h : b.ensureStreamAccess stream = .ok ()) : stream ∈ b.stream :: b.consumers := by
  unfold ensureStreamAccess at h
  split_ifs at h with hshared hraw hconsumer
  · exact stream_eq_of_raw hshared hraw ▸ List.mem_cons_self
  · obtain ⟨c, hc, hraw⟩ := List.any_eq_true.1 hconsumer
    have hraw : c.raw = stream.raw := of_decide_eq_true hraw
    exact stream_eq_of_raw ((hctx c hc).trans hshared) hraw ▸ List.mem_cons_of_mem _ hc

theorem gives_grant {other : CudaStream} (hctx : b.stream.ctx = other.ctx) :
    Gives (do
      let produced ← CudaEvent.new b.stream.ctx
      produced.record b.stream
      other.waitEvent produced
      if b.consumers.any fun stream => stream.raw = other.raw then pure b
      else pure { b with consumers := b.consumers ++ [other] } : PoolM PooledBuffer)
      fun b' L => (∃ event, L = handoff b.stream other event) ∧
        (b' = b ∨ b' = { b with consumers := b.consumers ++ [other] }) := by
  refine (CudaEvent.gives_new b.stream.ctx).bind (fun _ _ h => h.2 ▸ neutral_nil) ?_
  rintro produced _ ⟨hproduced, rfl⟩
  refine (CudaEvent.gives_record hproduced).bind
    (fun _ _ hL => neutral_singleton (neutral_record _ _) hL) ?_
  rintro _ _ rfl
  refine (CudaStream.gives_waitEvent (hctx.symm.trans hproduced.symm)).bind
    (fun _ _ hL => neutral_singleton (neutral_wait _ _) hL) ?_
  rintro _ _ rfl
  split_ifs
  · refine (gives_pure b).imp ?_
    rintro b' _ ⟨hb', rfl⟩
    exact ⟨⟨produced.raw, rfl⟩, .inl hb'⟩
  · refine (gives_pure _).imp ?_
    rintro b' _ ⟨hb', rfl⟩
    exact ⟨⟨produced.raw, rfl⟩, .inr hb'⟩

/-- A grant hands over from the allocating stream to the other one, and registers the other one. -/
theorem shareWith_spec (other : CudaStream) (s₀ : PoolRuntime) :
    Spec (fun s => s = s₀) (b.shareWith other)
      (fun b' s => (b' = b ∧ b.stream = other ∧ s = s₀) ∨
        ∃ event, Goes (handoff b.stream other event) s₀ s ∧ other.ctx = b.stream.ctx ∧
          (b' = b ∨ b' = { b with consumers := b.consumers ++ [other] }))
      fun _ s => ∃ L, (∀ x ∈ L, Neutral x) ∧ Goes L s₀ s := by
  unfold shareWith
  by_cases hctx : b.stream.ctx = other.ctx
  · rw [if_pos hctx]
    by_cases hraw : b.stream.raw = other.raw
    · rw [if_pos hraw]
      exact Spec.pure b fun s hs => .inl ⟨rfl, stream_eq_of_raw hctx hraw, hs⟩
    · rw [if_neg hraw]
      refine ((b.gives_grant hctx) s₀).conseq (fun _ hs => hs) ?_
        fun _ _ ⟨L, hL, hgoes, _⟩ => ⟨L, hL, hgoes⟩
      rintro b' s ⟨L, ⟨⟨event, rfl⟩, hb'⟩, hgoes⟩
      exact .inr ⟨event, hgoes, hctx.symm, hb'⟩
  · rw [if_neg hctx]
    exact Spec.fail _ fun s hs => ⟨[], neutral_nil, hs ▸ Goes.refl s⟩

/-! ### Accesses -/

/-- Submissions among which there is at most one access, through the buffer and on a stream with
access to it. -/
def Touches (L : PoolTimeline) : Prop :=
  (∀ x ∈ L, Neutral x) ∨ ∃ stream work, b.ptr ≠ 0 ∧ b.ensureStreamAccess stream = .ok () ∧
    work.access? = some (b.id, b.block) ∧ L = [⟨stream, .work work⟩]

/-- Whether a computation returns or fails, it has accessed the memory of the buffer only. -/
def Uses (m : PoolM Unit) : Prop :=
  ∀ s₀, Spec (fun s => s = s₀) m (fun _ s => ∃ L, b.Touches L ∧ Goes L s₀ s)
    fun _ s => ∃ L, b.Touches L ∧ Goes L s₀ s

variable {b}

theorem uses_of_stays {m : PoolM Unit} (h : Stays m) : b.Uses m :=
  fun s₀ => (h s₀).conseq (fun _ hs => hs) (fun _ _ ⟨L, hL, hgoes⟩ => ⟨L, .inl hL, hgoes⟩)
    fun _ _ ⟨L, hL, hgoes⟩ => ⟨L, .inl hL, hgoes⟩

theorem uses_accessAsync {work : PoolWork} (hwork : work.access? = some (b.id, b.block))
    (stream : CudaStream) : b.Uses (b.accessAsync stream work) := by
  intro s₀
  unfold accessAsync
  cases haccess : b.ensureStreamAccess stream with
  | error e => exact (uses_of_stays (stays_fail e)) s₀
  | ok a =>
    by_cases hptr : b.ptr = 0
    · rw [if_pos hptr]
      exact uses_of_stays ((gives_pure _).stays fun _ _ h => h.2 ▸ neutral_nil) s₀
    · rw [if_neg hptr]
      have hgives : Gives (do
          setCurrent stream.ctx
          nativeCall
          submit stream (.work work) : PoolM Unit) fun _ L => L = [⟨stream, .work work⟩] :=
        .after_call fun _ => .after_call fun _ => gives_submit stream _
      refine (hgives s₀).conseq (fun _ hs => hs) ?_ fun _ _ ⟨L, hL, hgoes, _⟩ => ⟨L, .inl hL, hgoes⟩
      rintro _ s ⟨L, rfl, hgoes⟩
      exact ⟨_, .inr ⟨stream, work, hptr, haccess, hwork, rfl⟩, hgoes⟩

theorem uses_completed {m : PoolM Unit} (h : b.Uses m) (stream : CudaStream) :
    b.Uses (b.completed stream m) := by
  intro s₀
  unfold completed
  refine Spec.bind (h s₀) fun _ => ?_
  split_ifs
  · refine Spec.of_forall fun s₁ ⟨L, hL, hgoes⟩ => ?_
    have hlater {s : PoolRuntime} (h : Goes [] s₁ s) : ∃ L, b.Touches L ∧ Goes L s₀ s :=
      ⟨L, hL, List.append_nil L ▸ hgoes.trans h⟩
    exact (stream.synchronize_spec s₁).conseq (fun _ hs => hs) (fun _ _ => hlater) fun _ _ => hlater
  · exact Spec.pure _ fun _ hs => hs

theorem uses_zeroAsync (stream : CudaStream) :
    b.Uses (b.zeroAsync stream) := uses_accessAsync rfl stream

theorem uses_copyFromHostAsync (stream : CudaStream) (src : List UInt8) :
    b.Uses (b.copyFromHostAsync stream src) := by
  unfold copyFromHostAsync
  split_ifs
  · exact uses_accessAsync rfl stream
  · exact uses_of_stays (stays_fail _)

theorem uses_copyToHostAsync (stream : CudaStream) (dst : ℕ) :
    b.Uses (b.copyToHostAsync stream dst) := by
  unfold copyToHostAsync
  split_ifs
  · exact uses_accessAsync rfl stream
  · exact uses_of_stays (stays_fail _)

theorem stays_launch (stream : CudaStream) : Stays (submit stream (.work .other)) :=
  (gives_submit stream _).stays fun _ _ hL =>
    neutral_singleton (fun _ h => (Submitted.work.inj h).symm) hL

theorem uses_launchOn {stream : CudaStream} (haccess : b.ensureStreamAccess stream = .ok ())
    (output : Option (List UInt8)) : b.Uses (b.launchOn stream output) := by
  unfold launchOn
  by_cases hptr : b.ptr = 0
  · rw [if_pos hptr]
    exact uses_of_stays (stays_launch stream)
  · rw [if_neg hptr]
    intro s₀
    refine ((gives_submit stream _) s₀).conseq (fun _ hs => hs) ?_
      fun _ _ ⟨L, hL, hgoes, _⟩ => ⟨L, .inl hL, hgoes⟩
    rintro _ s ⟨L, rfl, hgoes⟩
    refine ⟨_, .inr ⟨stream, _, hptr, haccess, ?_, rfl⟩, hgoes⟩
    cases output <;> rfl

/-! ### Drops -/

variable (b)

/-- Whatever the driver refuses, a drop goes on; when it has accepted the calls, the allocating
stream waits for what the consumer has been given. -/
theorem awaitConsumer_spec {c : CudaStream} (hctx : c.ctx = b.stream.ctx) (s₀ : PoolRuntime) :
    Spec (fun s => s = s₀) (b.awaitConsumer c)
      (fun _ s => ∃ L, (∀ x ∈ L, Neutral x) ∧ Goes L s₀ s ∧
        (Accepted s₀ s → ∃ event, L = handoff c b.stream event))
      fun _ _ => False := by
  have hrefused {s : PoolRuntime} (h : Refused s₀ s) : ∃ L, (∀ x ∈ L, Neutral x) ∧ Goes L s₀ s ∧
      (Accepted s₀ s → ∃ event, L = handoff c b.stream event) := by
    obtain ⟨L, hL, hgoes, hrefused⟩ := h
    exact ⟨L, hL, hgoes, fun haccepted => absurd haccepted hrefused⟩
  unfold awaitConsumer
  refine Spec.bind (((CudaEvent.gives_new c.ctx).attempt neutral_nil s₀).conseq
    (fun s hs => hs ▸ Goes.refl s) (fun _ _ h => h) fun _ _ h => h) fun r => ?_
  cases r with
  | error e => exact Spec.pure _ fun s hs => hrefused hs
  | ok consumed =>
    refine Spec.of_forall fun s₁ hs₁ => ?_
    obtain ⟨L, ⟨hconsumed, rfl⟩, hgoes⟩ := hs₁
    refine Spec.bind (((CudaEvent.gives_record hconsumed).attempt neutral_nil s₀).conseq
      (fun s hs => hs ▸ hgoes) (fun _ _ h => h) fun _ _ h => h) fun r => ?_
    cases r with
    | error e => exact Spec.pure _ fun s hs => hrefused hs
    | ok a =>
      refine Spec.of_forall fun s₂ hs₂ => ?_
      obtain ⟨L, rfl, hgoes⟩ := hs₂
      refine Spec.bind (((CudaStream.gives_waitEvent (hctx.symm.trans hconsumed.symm)).attempt
        (neutral_singleton (neutral_record _ _) rfl) s₀).conseq
        (fun s hs => hs ▸ hgoes) (fun _ _ h => h) fun _ _ h => h) fun r =>
          Spec.pure _ fun s hs => ?_
      cases r with
      | error e => exact hrefused hs
      | ok a =>
        obtain ⟨L, rfl, hgoes⟩ := hs
        exact ⟨_, neutral_handoff c b.stream consumed.raw, hgoes, fun _ => ⟨consumed.raw, rfl⟩⟩

/-- The allocating stream has waited for what a consumer had been given. -/
def Awaits (H H' : PoolTimeline) (c : CudaStream) : Prop :=
  ∀ x, On H x c → ∃ w, On H' w b.stream ∧ Timeline.Before H' x w

/-- The allocating stream waits for all consumers, when the driver has accepted the calls. -/
theorem awaitConsumers_spec (hctx : ∀ c ∈ b.consumers, c.ctx = b.stream.ctx) (s₀ : PoolRuntime) :
    Spec (fun s => s = s₀) (.forEach b.consumers b.awaitConsumer)
      (fun _ s => ∃ L, (∀ x ∈ L, Neutral x) ∧ Goes L s₀ s ∧
        (Accepted s₀ s → ∀ c ∈ b.consumers, b.Awaits s₀.timeline s.timeline c))
      fun _ _ => False := by
  let I (rest : List CudaStream) (s : PoolRuntime) : Prop :=
    (∀ c ∈ rest, c.ctx = b.stream.ctx) ∧ ∃ L, (∀ x ∈ L, Neutral x) ∧ Goes L s₀ s ∧
      (Accepted s₀ s → ∀ c ∈ b.consumers, c ∉ rest → b.Awaits s₀.timeline s.timeline c)
  refine (Spec.forEach I b.consumers fun c rest => Spec.of_forall ?_).conseq ?_ ?_ fun _ _ h => h
  · rintro s₁ ⟨hrest, L, hL, hgoes, hwaited⟩
    refine (b.awaitConsumer_spec (hrest c List.mem_cons_self) s₁).conseq (fun _ hs => hs) ?_
      fun _ _ h => h
    rintro _ s ⟨L', hL', hgoes', hhandoff⟩
    refine ⟨fun c' hc' => hrest c' (List.mem_cons_of_mem _ hc'), L ++ L',
      List.forall_mem_append.2 ⟨hL, hL'⟩, hgoes.trans hgoes', fun haccepted c' hc' hnew x hx => ?_⟩
    rw [hgoes'.timeline_eq]
    by_cases hcc' : c' = c
    · obtain ⟨event, rfl⟩ := hhandoff (haccepted.right hgoes)
      have hx' : On s₁.timeline x c := by
        rw [hgoes.timeline_eq, ← hcc']
        exact hx.append L
      exact ⟨_, on_handoff s₁.timeline c b.stream event, before_handoff hx' event⟩
    · obtain ⟨w, hw, hbefore⟩ := hwaited (haccepted.left hgoes'.calls_le) c' hc'
        (fun h => (List.mem_cons.1 h).elim hcc' hnew) x hx
      exact ⟨w, hw.append L', hbefore.append L'⟩
  · rintro s rfl
    exact ⟨hctx, [], neutral_nil, Goes.refl s, fun _ c hc hnew => absurd hc hnew⟩
  · rintro _ s ⟨-, L, hL, hgoes, hwaited⟩
    exact ⟨L, hL, hgoes, fun haccepted c hc => hwaited haccepted c hc List.not_mem_nil⟩

/-- The free of the block is the last submission. -/
structure Freed (s s' : PoolRuntime) : Prop where
  calls_le : s.calls ≤ s'.calls
  buffers_eq : s'.buffers = s.buffers
  live_eq : s'.live = s.live.erase b.block
  timeline_eq : s'.timeline = s.timeline ++ [⟨b.stream, .work (.free b.id b.block)⟩]

/-- A drop never fails. When the driver has accepted its calls, all that the consumers had been
given is done before the free. -/
theorem drop_spec (hptr : b.ptr ≠ 0) (hctx : ∀ c ∈ b.consumers, c.ctx = b.stream.ctx)
    (s₀ : PoolRuntime) :
    Spec (fun s => s = s₀) b.drop
      (fun _ s => ∃ L s₁, (∀ x ∈ L, Neutral x) ∧ Goes L s₀ s₁ ∧
        (Accepted s₀ s → ∀ c ∈ b.consumers, b.Awaits s₀.timeline s₁.timeline c) ∧
        (Goes [] s₁ s ∨ b.Freed s₁ s))
      fun _ _ => False := by
  unfold PooledBuffer.drop
  rw [if_neg hptr]
  refine Spec.bind (b.awaitConsumers_spec hctx s₀) fun _ => Spec.of_forall fun s₁ hs₁ => ?_
  obtain ⟨L, hL, hgoes, hwaited⟩ := hs₁
  have hcurrent : Spec (fun s => s = s₁) (Fallible.attempt (setCurrent b.stream.ctx))
      (fun _ s => Goes [] s₁ s) fun _ _ => False :=
    Spec.attempt ((nativeCall_spec s₁).conseq (fun _ hs => hs) (fun _ _ h => h) fun _ _ h => h.1)
  refine Spec.bind hcurrent fun _ => Spec.of_forall fun s₂ hs₂ => ?_
  have hfree : Spec (fun s => s = s₂) b.enqueueFree (fun _ s => b.Freed s₂ s)
      fun _ s => Goes [] s₂ s := by
    refine Spec.bind ((nativeCall_spec s₂).conseq (fun _ hs => hs) (fun _ _ h => h)
      fun _ _ h => h.1)
      fun _ => Spec.of_forall fun s₃ hs₃ => ?_
    rintro s rfl
    exact ⟨hs₃.calls_le, hs₃.buffers_eq, congrArg (List.erase · b.block) hs₃.live_eq,
      congrArg (· ++ _) (hs₃.timeline_eq.trans (List.append_nil _))⟩
  refine Spec.bind (Spec.attempt (Q := fun _ s => Goes [] s₂ s ∨ b.Freed s₂ s)
    (hfree.conseq (fun _ hs => hs) (fun _ _ h => .inr h) fun _ _ h => .inl h))
    fun _ => Spec.pure _ fun s hs => ?_
  rcases hs with hs | hs
  · have hgoes' : Goes [] s₁ s := hs₂.trans hs
    exact ⟨L, s₁, hL, hgoes, fun haccepted => hwaited (haccepted.left hgoes'.calls_le), .inl hgoes'⟩
  · refine ⟨L, s₁, hL, hgoes,
      fun haccepted => hwaited (haccepted.left (hs₂.calls_le.trans hs.calls_le)), .inr ?_⟩
    exact
      { calls_le := hs₂.calls_le.trans hs.calls_le
        buffers_eq := hs.buffers_eq.trans hs₂.buffers_eq
        live_eq := hs.live_eq.trans (congrArg (List.erase · b.block) hs₂.live_eq)
        timeline_eq := hs.timeline_eq.trans
          (congrArg (· ++ _) (hs₂.timeline_eq.trans (List.append_nil _))) }

end PooledBuffer

/-- An allocation adds a buffer: an empty one, or one with a block outside the live ones. -/
structure StreamOrderedAllocator.Allocated (allocator : StreamOrderedAllocator) (s₀ : PoolRuntime)
    (b : PooledBuffer) (s : PoolRuntime) : Prop where
  id_eq : b.id = s₀.buffers
  stream_eq : b.stream = allocator.stream
  consumers_eq : b.consumers = []
  buffers_eq : s.buffers = s₀.buffers + 1
  block : b.ptr = 0 ∧ s.live = s₀.live ∧ s.timeline = s₀.timeline ∨
    0 < b.sizeBytes ∧ (∀ block ∈ s₀.live, block.Apart b.block) ∧ s.live = b.block :: s₀.live ∧
      s.timeline = s₀.timeline ++ [⟨allocator.stream, .work (.alloc s₀.buffers b.block)⟩]

theorem StreamOrderedAllocator.alloc_spec (self : StreamOrderedAllocator) (size len : ℕ)
    (s₀ : PoolRuntime) :
    Spec (fun s => s = s₀) (self.alloc size len) (fun b s => self.Allocated s₀ b s)
      fun _ s => Goes [] s₀ s := by
  unfold StreamOrderedAllocator.alloc
  refine Spec.bind (R := fun bytes s => s = s₀ ∧ bytes = len * size) (Spec.ofExcept ?_ ?_)
    fun bytes => Spec.of_forall fun s₁ hs₁ => ?_
  · intro bytes hbytes s hs
    refine ⟨hs, ?_⟩
    cases hmul : checkedMul len size with
    | none =>
      rw [hmul] at hbytes
      cases hbytes
    | some n =>
      rw [hmul] at hbytes
      rw [← Except.ok.inj hbytes]
      exact (checkedMul_eq_some_iff.1 hmul).1.symm
  · rintro e - s rfl
    exact Goes.refl s
  · obtain ⟨rfl, rfl⟩ := hs₁
    refine Spec.bind ((nativeCall_spec s₁).conseq (fun _ hs => hs) (fun _ _ h => h)
      fun _ _ h => h.1)
      fun _ => Spec.of_forall fun s₂ hs₂ => Spec.get_bind ?_
    by_cases hpos : 0 < len * size
    · simp only [if_pos hpos]
      refine Spec.bind ((nativeCall_spec s₂).conseq (fun _ hs => hs) (fun _ _ h => h)
        fun _ _ h => hs₂.trans h.1) fun _ => Spec.of_forall fun s₃ hs₃ => Spec.get_bind ?_
      rintro s rfl
      have hgoes : Goes [] s₁ s := hs₂.trans hs₃
      have hlive : s.live = s₁.live := hgoes.live_eq
      refine
        { id_eq := hs₂.buffers_eq
          stream_eq := rfl
          consumers_eq := rfl
          buffers_eq := congrArg (· + 1) hgoes.buffers_eq
          block := .inr ⟨hpos, fun block hblock => ?_, ?_, ?_⟩ }
      · exact (s.place s.timeline (len * size) s.live).2.2 block (hlive.symm ▸ hblock)
      · exact congrArg (List.cons _) hlive
      · have htimeline : s.timeline = s₁.timeline := hgoes.timeline_eq.trans (List.append_nil _)
        have hbuffers : s.buffers = s₁.buffers := hgoes.buffers_eq
        change s.timeline ++ [⟨self.stream, .work (.alloc s.buffers _)⟩] = _
        rw [htimeline, hbuffers]
        rfl
    · simp only [if_neg hpos]
      rintro s rfl
      exact
        { id_eq := hs₂.buffers_eq
          stream_eq := rfl
          consumers_eq := rfl
          buffers_eq := congrArg (· + 1) hs₂.buffers_eq
          block := .inl ⟨rfl, hs₂.live_eq, hs₂.timeline_eq.trans (List.append_nil _)⟩ }

/-! ### Programs -/

namespace PoolSystem

/-- A kernel is given a buffer on a stream with access to it, and the driver accepts the calls of a
drop. -/
def Obeys (call : PoolCall) (self : PoolSystem) : Prop :=
  match call with
  | .launchOn handle stream _ =>
    ∀ b, self.buffer? handle = some b → b.ensureStreamAccess stream = .ok ()
  | .drop _ => Accepted self.runtime (self.perform call).2.runtime
  | _ => True

/-- The invariant of a program. -/
structure Invariant (system : PoolSystem) : Prop where
  length_eq : system.buffers.length = system.runtime.buffers
  pool : PoolInvariant system.allocator.stream system.runtime.timeline system.runtime.buffers
    system.runtime.live system.buffer?

theorem Starts.invariant {self : PoolSystem} (h : self.Starts) : self.Invariant where
  length_eq := by rw [h.buffers_eq, h.numbered, List.length_nil]
  pool := by
    have hnone (p : Submission CudaStream ℕ PoolWork → Prop) (j : ℕ) :
        ¬ self.runtime.timeline.At j p := by
      rintro ⟨x, hx, -⟩
      rw [h.timeline_eq, List.getElem?_nil] at hx
      cases hx
    have howned (i : ℕ) (b : PooledBuffer) : self.buffer? i ≠ some b := by
      rw [buffer?, h.buffers_eq, List.getElem?_nil]
      intro hb
      cases hb
    exact
      { allocs := fun a _ _ ha => absurd ha (hnone _ a)
        once := fun a _ _ _ _ ha _ => absurd ha (hnone _ a)
        accesses := fun x _ _ hx => absurd hx (hnone _ x)
        frees := fun f _ _ hf => absurd hf (hnone _ f)
        freed := fun x _ _ _ _ hx _ => absurd hx (hnone _ x)
        apart := fun a _ _ _ _ _ ha _ _ => absurd ha (hnone _ a)
        lives := fun a _ _ ha => absurd ha (hnone _ a)
        owned_lt := fun i b hb => absurd hb (howned i b)
        owns := fun i b hb => absurd hb (howned i b) }

/-- What a step keeps, and what it submits. -/
structure Steps (system next : PoolSystem) : Prop where
  invariant : next.Invariant
  allocator_eq : next.allocator = system.allocator
  grows : ∃ L, next.runtime.timeline = system.runtime.timeline ++ L

variable {self : PoolSystem}

theorem buffer?_append (b : PooledBuffer) :
    (fun i => ((self.buffers ++ [some b])[i]?).join) =
      Function.update self.buffer? self.buffers.length (some b) := by
  funext i
  rw [List.getElem?_append]
  by_cases hi : i = self.buffers.length
  · rw [hi, Function.update_self, if_neg (Nat.lt_irrefl _), Nat.sub_self]
    rfl
  · rw [Function.update_of_ne hi]
    split_ifs with hlt
    · rfl
    · have hget : self.buffers[i]? = none := List.getElem?_eq_none (Nat.le_of_not_lt hlt)
      have hzero : [some b][i - self.buffers.length]? = none :=
        List.getElem?_eq_none (by rw [List.length_singleton]; omega)
      rw [buffer?, hget, hzero]

theorem buffer?_set {handle : ℕ} (hlt : handle < self.buffers.length) (b : Option PooledBuffer) :
    (fun i => ((self.buffers.set handle b)[i]?).join) = Function.update self.buffer? handle b := by
  funext i
  by_cases hi : i = handle
  · rw [hi, Function.update_self, List.getElem?_set_self hlt]
    rfl
  · rw [Function.update_of_ne hi, List.getElem?_set_ne (Ne.symm hi)]
    rfl

/-- A computation that stays away from the buffers. -/
theorem Invariant.run_of_goes (h : self.Invariant) {s : PoolRuntime} {L : PoolTimeline}
    (hL : ∀ x ∈ L, Neutral x) (hgoes : Goes L self.runtime s) :
    Steps self { self with runtime := s } where
  invariant :=
    { length_eq := h.length_eq.trans hgoes.buffers_eq.symm
      pool := by
        have hpool := h.pool.append hL
        rw [← hgoes.timeline_eq, ← hgoes.buffers_eq, ← hgoes.live_eq] at hpool
        exact hpool }
  allocator_eq := rfl
  grows := ⟨L, hgoes.timeline_eq⟩

theorem Invariant.run_of_stays (h : self.Invariant) {m : PoolM Unit} (hm : Stays m) :
    Steps self (self.run m).2 := by
  have hspec := hm self.runtime self.runtime rfl
  rcases hrun : m.run self.runtime with ⟨e | a, s⟩
  all_goals
    rw [hrun] at hspec
    obtain ⟨L, hL, hgoes⟩ := hspec
    rw [run, hrun]
    exact h.run_of_goes hL hgoes

/-- A computation that accesses a buffer. -/
theorem Invariant.run_of_uses (h : self.Invariant) {handle : ℕ} {b : PooledBuffer}
    (hb : self.buffer? handle = some b) {m : PoolM Unit} (hm : b.Uses m) :
    Steps self (self.run m).2 := by
  have htouches {s : PoolRuntime} {L : PoolTimeline}
    (hL : b.Touches L) (hgoes : Goes L self.runtime s) :
      Steps self { self with runtime := s } := by
    rcases hL with hL | ⟨stream, work, hptr, haccess, hwork, rfl⟩
    · exact h.run_of_goes hL hgoes
    · have howned := h.pool.owns handle b hb
      have hmem := b.mem_of_ensureStreamAccess (howned.stream_eq ▸ howned.ctx_eq) haccess
      rw [howned.stream_eq] at hmem
      rw [howned.id_eq] at hwork
      have hpool := h.pool.access hb hptr hmem hwork
      rw [← hgoes.timeline_eq, ← hgoes.buffers_eq, ← hgoes.live_eq] at hpool
      exact ⟨⟨h.length_eq.trans hgoes.buffers_eq.symm, hpool⟩, rfl, _, hgoes.timeline_eq⟩
  have hspec := hm self.runtime self.runtime rfl
  rcases hrun : m.run self.runtime with ⟨e | a, s⟩
  all_goals
    rw [hrun] at hspec
    obtain ⟨L, hL, hgoes⟩ := hspec
    rw [run, hrun]
    exact htouches hL hgoes

theorem Invariant.alloc (h : self.Invariant) (size len : ℕ) :
    Steps self (self.perform (.alloc size len)).2 := by
  have hspec := self.allocator.alloc_spec size len self.runtime self.runtime rfl
  rw [perform, runInto]
  rcases hrun : (self.allocator.alloc size len).run self.runtime with ⟨e | b, s⟩ <;>
    rw [hrun] at hspec
  · exact h.run_of_goes neutral_nil hspec
  · have hb : self.allocator.Allocated self.runtime b s := hspec
    have hlength : (self.buffers ++ [some b]).length = s.buffers := by
      rw [List.length_append, List.length_singleton, h.length_eq, hb.buffers_eq]
    have hbuffer : (fun i => ((self.buffers ++ [some b])[i]?).join) = _ := buffer?_append b
    rw [h.length_eq] at hbuffer
    rcases hb.block with ⟨hptr, hlive, htimeline⟩ | ⟨hpos, hplace, hlive, htimeline⟩
    · refine ⟨⟨hlength, ?_⟩, rfl, [], htimeline.trans (List.append_nil _).symm⟩
      have hpool := h.pool.allocEmpty hb.id_eq hb.stream_eq hptr hb.consumers_eq
      rw [← hbuffer, ← htimeline, ← hlive, ← hb.buffers_eq] at hpool
      exact hpool
    · refine ⟨⟨hlength, ?_⟩, rfl, _, htimeline⟩
      have hpool := h.pool.alloc hb.id_eq hb.stream_eq hb.consumers_eq hpos hplace
      rw [← hbuffer, ← htimeline, ← hlive, ← hb.buffers_eq] at hpool
      exact hpool

theorem lt_of_buffer? {handle : ℕ} {b : PooledBuffer} (hb : self.buffer? handle = some b) :
    handle < self.buffers.length := by
  by_contra hlt
  rw [buffer?, List.getElem?_eq_none (Nat.le_of_not_lt hlt)] at hb
  cases hb

theorem Invariant.shareWith (h : self.Invariant) {handle : ℕ} {b : PooledBuffer}
    (hb : self.buffer? handle = some b) (other : CudaStream) :
    Steps self (self.runInto (b.shareWith other) fun buffer =>
      self.buffers.set handle (some buffer)).2 := by
  have howned := h.pool.owns handle b hb
  have hlt := lt_of_buffer? hb
  have hset (b' : PooledBuffer) := buffer?_set hlt (some b')
  have hsame : Function.update self.buffer? handle (some b) = self.buffer? := by
    rw [← hb, Function.update_eq_self]
  have hspec := b.shareWith_spec other self.runtime self.runtime rfl
  rw [runInto]
  rcases hrun : (b.shareWith other).run self.runtime with ⟨e | b', s⟩ <;> rw [hrun] at hspec
  · obtain ⟨L, hL, hgoes⟩ := hspec
    exact h.run_of_goes hL hgoes
  · have hkeeps {L : PoolTimeline} (hL : ∀ x ∈ L, Neutral x) (hgoes : Goes L self.runtime s) :
        Steps self { self with runtime := s, buffers := self.buffers.set handle (some b) } := by
      have hsteps := h.run_of_goes hL hgoes
      refine ⟨⟨?_, ?_⟩, rfl, hsteps.grows⟩
      · exact (List.length_set ..).trans hsteps.invariant.length_eq
      · have hpool := hsteps.invariant.pool
        change PoolInvariant _ _ _ _ (fun i => ((self.buffers.set handle (some b))[i]?).join)
        rw [hset b, hsame]
        exact hpool
    rcases hspec with ⟨rfl, -, rfl⟩ | ⟨event, hgoes, hctx, rfl | rfl⟩
    · exact hkeeps neutral_nil (Goes.refl _)
    · exact hkeeps (neutral_handoff _ _ event) hgoes
    · have hsteps := h.run_of_goes (neutral_handoff _ _ event) hgoes
      refine ⟨⟨(List.length_set ..).trans hsteps.invariant.length_eq, ?_⟩, rfl, hsteps.grows⟩
      change PoolInvariant _ _ _ _ (fun i => ((self.buffers.set handle (some _))[i]?).join)
      rw [hset]
      rw [howned.stream_eq] at hctx hgoes
      refine hsteps.invariant.pool.share hb hctx (w := self.runtime.timeline.length + 1) ?_ ?_
      · rw [show ({ self with runtime := s } : PoolSystem).runtime.timeline =
          _ from hgoes.timeline_eq]
        exact on_handoff _ _ other event
      · intro a block ha
        rw [show ({ self with runtime := s } : PoolSystem).runtime.timeline = _ from
          hgoes.timeline_eq] at ha ⊢
        have ha' := (allocAt_append (neutral_handoff _ _ event)).1 ha
        exact before_handoff (h.pool.allocs a handle block ha').1 event

theorem Invariant.drop (h : self.Invariant) {handle : ℕ} {b : PooledBuffer}
    (hb : self.buffer? handle = some b)
    (haccepted : Accepted self.runtime (b.drop.run self.runtime).2) :
    Steps self ({ self with buffers := self.buffers.set handle none }.run b.drop).2 := by
  have howned := h.pool.owns handle b hb
  have hdropped := h.pool.drop handle
  have hlength : (self.buffers.set handle none).length = self.runtime.buffers :=
    (List.length_set ..).trans h.length_eq
  rw [← buffer?_set (lt_of_buffer? hb)] at hdropped
  have hbegins : Invariant { self with buffers := self.buffers.set handle none } :=
    ⟨hlength, hdropped⟩
  by_cases hptr : b.ptr = 0
  · have hrun : b.drop = pure () := if_pos hptr
    rw [run, hrun]
    exact ⟨hbegins, rfl, [], (List.append_nil _).symm⟩
  · have hspec := b.drop_spec hptr (howned.stream_eq ▸ howned.ctx_eq) self.runtime self.runtime rfl
    rw [run]
    rcases hrun : b.drop.run self.runtime with ⟨e | a, s⟩ <;> rw [hrun] at hspec haccepted
    · exact hspec.elim
    · obtain ⟨L, s₁, hL, hgoes, hwaited, hfree⟩ := hspec
      have hsteps := hbegins.run_of_goes hL hgoes
      rcases hfree with hgoes' | hfreed
      · have hlater := hsteps.invariant.run_of_goes neutral_nil hgoes'
        exact ⟨hlater.invariant, rfl, L ++ [], (hgoes.trans hgoes').timeline_eq⟩
      · have hnone : ((self.buffers.set handle none)[handle]?).join = none := by
          rw [List.getElem?_set_self (lt_of_buffer? hb)]
          rfl
        have halloc : ∃ a, AllocAt s₁.timeline a handle b.block := by
          obtain ⟨a, ha, -⟩ := howned.granted hptr
          exact ⟨a, hgoes.timeline_eq ▸ ha.append L⟩
        have hunfreed (f : ℕ) (block : PoolBlock) : ¬ FreeAt s₁.timeline f handle block := by
          rw [hgoes.timeline_eq, freeAt_append hL]
          exact h.pool.unfreed hb f block
        have husers (x : ℕ) (block : PoolBlock) (hx : AccessAt s₁.timeline x handle block) :
            ∃ w, On s₁.timeline w b.stream ∧ (x = w ∨ s₁.timeline.Before x w) := by
          rw [hgoes.timeline_eq, accessAt_append hL] at hx
          obtain ⟨c, hc, hon⟩ := howned.users x block hx
          rcases List.mem_cons.1 hc with rfl | hc
          · exact ⟨x, hgoes.timeline_eq ▸ howned.stream_eq.symm ▸ hon.append L, .inl rfl⟩
          · obtain ⟨w, hw, hbefore⟩ := hwaited haccepted c hc x hon
            exact ⟨w, hw, .inr hbefore⟩
        have hpool := hsteps.invariant.pool.free halloc hnone hunfreed
          (howned.stream_eq ▸ husers)
        have htimeline := hfreed.timeline_eq
        rw [howned.id_eq, howned.stream_eq] at htimeline
        refine ⟨⟨?_, ?_⟩, rfl, L ++ [⟨self.allocator.stream, .work (.free handle b.block)⟩], ?_⟩
        · exact hlength.trans (hfreed.buffers_eq.trans hgoes.buffers_eq).symm
        · change PoolInvariant _ s.timeline s.buffers s.live _
          rw [htimeline, hfreed.buffers_eq, hfreed.live_eq]
          exact hpool
        · exact htimeline.trans (by rw [hgoes.timeline_eq, List.append_assoc])

/-- Every call of a program keeps the invariant. -/
theorem Invariant.step (h : self.Invariant) {call : PoolCall} (hobeys : Obeys call self) :
    Steps self (self.perform call).2 := by
  have hidle : Steps self self := ⟨h, rfl, [], (List.append_nil _).symm⟩
  have hon {handle : ℕ} {f : PooledBuffer → Except NnisError Unit × PoolSystem}
      (hf : ∀ b, self.buffer? handle = some b → Steps self (f b).2) :
      Steps self (self.runOn handle f).2 := by
    rw [runOn]
    split
    · exact hf _ ‹_›
    · exact hidle
  cases call with
  | alloc size len => exact h.alloc size len
  | shareWith handle other => exact hon fun b hb => h.shareWith hb other
  | zeroAsync handle stream =>
      exact hon fun b hb => h.run_of_uses hb (PooledBuffer.uses_zeroAsync stream)
  | zero handle stream =>
    exact hon fun b hb =>
      h.run_of_uses hb (PooledBuffer.uses_completed (PooledBuffer.uses_zeroAsync stream) stream)
  | copyFromHostAsync handle stream src =>
    exact hon fun b hb => h.run_of_uses hb (PooledBuffer.uses_copyFromHostAsync stream src)
  | copyFromHost handle stream src =>
    exact hon fun b hb =>
      h.run_of_uses hb (PooledBuffer.uses_completed
        (PooledBuffer.uses_copyFromHostAsync stream src) stream)
  | copyToHostAsync handle stream dst =>
    exact hon fun b hb => h.run_of_uses hb (PooledBuffer.uses_copyToHostAsync stream dst)
  | copyToHost handle stream dst =>
    exact hon fun b hb =>
      h.run_of_uses hb (PooledBuffer.uses_completed
        (PooledBuffer.uses_copyToHostAsync stream dst) stream)
  | toVec handle stream =>
    exact hon fun b hb =>
      h.run_of_uses hb (PooledBuffer.uses_completed
        (PooledBuffer.uses_copyToHostAsync stream b.len) stream)
  | drop handle =>
    refine hon fun b hb => h.drop hb ?_
    have haccepted : Accepted self.runtime (self.runOn handle fun buffer =>
      { self with buffers := self.buffers.set handle none }.run buffer.drop).2.runtime := hobeys
    rw [runOn, hb] at haccepted
    exact haccepted
  | launchOn handle stream output =>
    exact hon fun b hb => h.run_of_uses hb (PooledBuffer.uses_launchOn (hobeys b hb) output)
  | launch stream => exact h.run_of_stays (PooledBuffer.stays_launch stream)
  | record event stream => exact h.run_of_stays (event.stays_record stream)
  | waitEvent stream event => exact h.run_of_stays (stream.stays_waitEvent event)

theorem Invariant.steps (h : self.Invariant) {calls : List PoolCall}
    (hobeys : EachCall Obeys perform calls self) :
    Steps self (replies perform calls self).2 := by
  induction calls generalizing self with
  | nil => exact ⟨h, rfl, [], (List.append_nil _).symm⟩
  | cons call calls ih =>
    have hstep := h.step hobeys.1
    have hrest := ih hstep.invariant hobeys.2
    obtain ⟨L, hL⟩ := hstep.grows
    obtain ⟨L', hL'⟩ := hrest.grows
    refine ⟨hrest.invariant, hrest.allocator_eq.trans hstep.allocator_eq, L ++ L', ?_⟩
    rw [replies_cons, hL', hL, List.append_assoc]

/-- What the allocating stream had been given before a grant is done before what the other stream is
given after it. -/
theorem before_of_shareWith {handle : ℕ} {b : PooledBuffer}
    (hb : self.buffer? handle = some b) {other : CudaStream}
    (hshared : (self.perform (.shareWith handle other)).1 = .ok ()) {L : PoolTimeline} {x y : ℕ}
    (hx : On self.runtime.timeline x b.stream)
    (hle : (self.perform (.shareWith handle other)).2.runtime.timeline.length ≤ y)
    (hy : On ((self.perform (.shareWith handle other)).2.runtime.timeline ++ L) y other) :
    Timeline.Before ((self.perform (.shareWith handle other)).2.runtime.timeline ++ L) x y := by
  have hspec := b.shareWith_spec other self.runtime self.runtime rfl
  rw [perform, runOn, hb] at hshared hle hy ⊢
  simp only [runInto] at hshared hle hy ⊢
  rcases hrun : (b.shareWith other).run self.runtime with ⟨e | b', s⟩
  · rw [hrun] at hshared
    cases hshared
  · rw [hrun] at hspec hle hy
    dsimp only at hle hy ⊢
    rcases hspec with ⟨-, hstream, rfl⟩ | ⟨event, hgoes, -⟩
    · exact .of_stream (hx.append L) (hstream ▸ hy) (hx.lt.trans_le hle)
    · have hwait : On (s.timeline ++ L) (self.runtime.timeline.length + 1) other := by
        rw [hgoes.timeline_eq]
        exact (on_handoff _ b.stream other event).append L
      have hlength : self.runtime.timeline.length + 1 < s.timeline.length := by
        rw [hgoes.timeline_eq]
        exact (on_handoff self.runtime.timeline b.stream other event).lt
      have hbefore : Timeline.Before (s.timeline ++ L) x (self.runtime.timeline.length + 1) := by
        rw [hgoes.timeline_eq]
        exact (before_handoff hx event).append L
      exact hbefore.trans (.of_stream hwait hy (hlength.trans_le hle))

/-- The accesses of every program are ordered: an access comes after the allocation of its buffer
and before its free, hence before every later buffer that gets some of its addresses, and what the
allocating stream had been given before a grant comes before what the other stream is given after
it. -/
theorem accesses_ordered {system : PoolSystem} (hstarts : system.Starts) {calls : List PoolCall}
    (hobeys : EachCall Obeys perform calls system) :
    let H := (replies perform calls system).2.runtime.timeline
    PoolOrdered H ∧ ∀ before handle other after,
      calls = before ++ .shareWith handle other :: after →
      let start := (replies perform before system).2
      let shared := start.perform (.shareWith handle other)
      ∀ b, start.buffer? handle = some b → shared.1 = .ok () → ∀ x y,
        On start.runtime.timeline x b.stream → shared.2.runtime.timeline.length ≤ y → On H y other →
          H.Before x y := by
  have hinvariant := hstarts.invariant
  refine ⟨(hinvariant.steps hobeys).invariant.pool.ordered, ?_⟩
  rintro before handle other after rfl
  have hstart := (hinvariant.steps hobeys.of_append).invariant
  have hrest := hobeys.of_append_right
  obtain ⟨L, hL⟩ := ((hstart.step hrest.1).invariant.steps hrest.2).grows
  have htimeline := (congrArg (fun run => run.2.runtime.timeline)
    (replies_append perform before (.shareWith handle other :: after) system)).trans hL
  intro start shared b hb hshared x y hx hle hy
  rw [htimeline] at hy ⊢
  exact before_of_shareWith hb hshared hx hle hy

/-! A pool that begins again at the lowest address when nothing is allocated. -/

/-- A place above all live blocks. -/
def placeAbove (bytes : ℕ) (live : List PoolBlock) :
    {ptr : ℕ // 0 < ptr ∧ ∀ block ∈ live, block.Apart ⟨ptr, bytes⟩} :=
  ⟨1 + (live.map fun block => block.ptr + block.bytes).sum, by omega, fun block hblock => by
    have hle := List.le_sum_of_mem (List.mem_map_of_mem (f := fun b => b.ptr + b.bytes) hblock)
    exact .inl (Nat.le_trans hle (Nat.le_add_left _ 1))⟩

/-- A program that has done nothing yet, with a driver that accepts every call. -/
def freshPool : PoolSystem :=
  ⟨⟨⟨0, 0⟩⟩, ⟨fun _ => none, fun _ bytes live => placeAbove bytes live, 0, 0, 0, [], []⟩, []⟩

/-- A buffer is written on two streams and dropped, and another one gets its block. -/
def reusingCalls : List PoolCall :=
  [.alloc 1 1, .copyFromHostAsync 0 ⟨0, 0⟩ [7], .shareWith 0 ⟨1, 0⟩, .zeroAsync 0 ⟨1, 0⟩, .drop 0,
    .alloc 1 1, .copyFromHostAsync 1 ⟨0, 0⟩ [9], .copyToHostAsync 1 ⟨0, 0⟩ 1]

theorem freshPool_starts : freshPool.Starts := ⟨rfl, rfl, rfl, rfl⟩

theorem reusingCalls_obeys : EachCall Obeys perform reusingCalls freshPool :=
  ⟨trivial, trivial, trivial, trivial, fun _ _ _ => rfl, trivial, trivial, trivial, trivial⟩

theorem timeline_reusingCalls : (replies perform reusingCalls freshPool).2.runtime.timeline =
    [⟨⟨0, 0⟩, .work (.alloc 0 ⟨1, 1⟩)⟩, ⟨⟨0, 0⟩, .work (.write 0 ⟨1, 1⟩ [7])⟩, ⟨⟨0, 0⟩, .record 0⟩,
      ⟨⟨1, 0⟩, .wait 0⟩, ⟨⟨1, 0⟩, .work (.write 0 ⟨1, 1⟩ [0])⟩, ⟨⟨1, 0⟩, .record 1⟩,
      ⟨⟨0, 0⟩, .wait 1⟩, ⟨⟨0, 0⟩, .work (.free 0 ⟨1, 1⟩)⟩, ⟨⟨0, 0⟩, .work (.alloc 1 ⟨1, 1⟩)⟩,
      ⟨⟨0, 0⟩, .work (.write 1 ⟨1, 1⟩ [9])⟩, ⟨⟨0, 0⟩, .work (.read 1 ⟨1, 1⟩)⟩] := rfl

theorem accesses_ordered_reusingCalls :
    PoolOrdered (replies perform reusingCalls freshPool).2.runtime.timeline :=
  (accesses_ordered freshPool_starts reusingCalls_obeys).1

/-- Whatever a program does, and whatever order the device chooses for it, a read through a buffer
finds what a write through the buffer has left that is ordered before it, when the other writes
through the same buffer are ordered around the two: recycled memory shows nothing of its other
owners. -/
theorem reads_isolated {system : PoolSystem} (hstarts : system.Starts) {calls : List PoolCall}
    (hobeys : EachCall Obeys perform calls system) :
    let H := (replies perform calls system).2.runtime.timeline
    ∀ (rank : ℕ → ℕ) (w r i : ℕ) (block : PoolBlock) (bytes : List UInt8), H.Respects rank →
      H.At w (·.submitted = .work (.write i block bytes)) → AccessAt H r i block → H.Before w r →
      (∀ x bytes', H.At x (·.submitted = .work (.write i block bytes')) → x ≠ w →
        H.Before x w ∨ H.Before r x) →
      ∀ k v, k < block.bytes → bytes[k]? = some v →
        H.Holds (PoolWork.byteAt (block.ptr + k)) rank r v := by
  intro H rank w r i block bytes hrank hw hr hbefore hothers k v hk hv
  have hordered := (hstarts.invariant.steps hobeys).invariant.pool.ordered
  exact hordered.holds_of_write hrank hw hr hbefore hothers hk hv

theorem reads_isolated_reusingCalls :
    Timeline.Holds (PoolWork.byteAt 1)
      (replies perform reusingCalls freshPool).2.runtime.timeline id 10
      9 := by
  have htimeline := timeline_reusingCalls
  refine reads_isolated freshPool_starts reusingCalls_obeys id 9 10 1 ⟨1, 1⟩ [9]
    (Timeline.respects_id _) ?_ ?_ ?_ ?_ 0 9 Nat.one_pos rfl
  · rw [htimeline]
    exact ⟨_, rfl, rfl⟩
  · rw [htimeline]
    exact ⟨_, rfl, _, rfl, rfl⟩
  · rw [htimeline]
    exact .of_stream (s := ⟨0, 0⟩) ⟨_, rfl, rfl⟩ ⟨_, rfl, rfl⟩ (by decide)
  · rw [htimeline]
    rintro x bytes ⟨y, hy, hwork⟩ hne
    obtain ⟨hlt, rfl⟩ := List.getElem?_eq_some_iff.1 hy
    have hlt : x < 11 := hlt
    interval_cases x
    all_goals first
      | exact absurd rfl hne
      | cases hwork

end PoolSystem

end NNIS
