import NNIS.Rt.Pool

/-!
# The order of accesses to pooled memory

An access through a pooled buffer comes after the allocation of the buffer and before its free, so
it comes before every access through a later buffer that has got some of the same addresses. The
invariant behind this is kept by every kind of submission: work elsewhere, an access on a stream
that has access to the buffer, an allocation outside the live blocks, and a free after all accesses.

## Main definitions

* `PoolOrdered` — the order of the accesses in a timeline.
* `PoolInvariant` — the invariant of a program that uses a pool.

## Main results

* `PoolInvariant.ordered` — the accesses are ordered.
* `PoolInvariant.append`, `PoolInvariant.access`, `PoolInvariant.alloc`, `PoolInvariant.share`,
  `PoolInvariant.drop`, `PoolInvariant.free` — what keeps the invariant.
* `PoolOrdered.holds_of_write` — whatever order the device chooses, a read through a buffer finds
  what was last written through the buffer.
-/

set_option autoImplicit false

namespace NNIS

/-- The submissions of a program with a pool. -/
abbrev PoolTimeline := Timeline CudaStream ℕ PoolWork

/-! ### Pooled memory in a timeline -/

/-- The buffer and the block that work reads or writes. -/
def PoolWork.access? : PoolWork → Option (ℕ × PoolBlock)
  | .read buffer block | .write buffer block _ => some (buffer, block)
  | _ => none

namespace PoolTimeline

variable (H : PoolTimeline)

/-- A buffer is allocated. -/
def AllocAt (a buffer : ℕ) (block : PoolBlock) : Prop :=
  H.At a (·.submitted = .work (.alloc buffer block))

/-- A buffer is freed. -/
def FreeAt (f buffer : ℕ) (block : PoolBlock) : Prop :=
  H.At f (·.submitted = .work (.free buffer block))

/-- A buffer is read or written. -/
def AccessAt (x buffer : ℕ) (block : PoolBlock) : Prop :=
  H.At x fun y => ∃ work, y.submitted = .work work ∧ work.access? = some (buffer, block)

/-- A submission is to a stream. -/
def On (x : ℕ) (stream : CudaStream) : Prop := H.At x (·.stream = stream)

end PoolTimeline

open PoolTimeline

/-- The accesses of a timeline are ordered. -/
structure PoolOrdered (H : PoolTimeline) : Prop where
  /-- An access comes after the allocation of its buffer. -/
  allocated : ∀ x i block, AccessAt H x i block → ∃ a, AllocAt H a i block ∧ H.Before a x
  /-- An access comes before the free of its buffer. -/
  freed : ∀ x f i block block', AccessAt H x i block → FreeAt H f i block' → H.Before x f
  /-- A buffer is allocated once. -/
  once : ∀ a a' i block block', AllocAt H a i block → AllocAt H a' i block' →
    a = a' ∧ block = block'
  /-- An access comes before the allocation of a later buffer that has got some of its addresses. -/
  reused : ∀ a a' i i' block block', AllocAt H a i block → AllocAt H a' i' block' → a < a' →
    ¬ block.Apart block' → ∀ x, AccessAt H x i block → H.Before x a'

/-- The byte that work leaves at an address. -/
def PoolWork.byteAt (address : ℕ) : PoolWork → Option UInt8
  | .write _ block bytes =>
    if block.ptr ≤ address ∧ address < block.ptr + block.bytes then bytes[address - block.ptr]?
      else none
  | _ => none

/-- Work that leaves a byte at an address is a write of a block around it. -/
theorem PoolWork.exists_write {address : ℕ} {work : PoolWork} {v : UInt8}
    (h : work.byteAt address = some v) : ∃ i block bytes, work = .write i block bytes ∧
      block.ptr ≤ address ∧ address < block.ptr + block.bytes := by
  cases work with
  | write i block bytes =>
    rw [byteAt] at h
    split_ifs at h with hrange
    exact ⟨i, block, bytes, rfl, hrange⟩
  | _ => cases h

/-- Blocks around one address are not apart. -/
theorem PoolBlock.not_apart {block block' : PoolBlock} {address : ℕ}
    (h : block.ptr ≤ address ∧ address < block.ptr + block.bytes)
    (h' : block'.ptr ≤ address ∧ address < block'.ptr + block'.bytes) : ¬ block.Apart block' := by
  unfold PoolBlock.Apart
  omega

namespace PoolOrdered

variable {H : PoolTimeline}

/-- Accesses through different buffers to one address are ordered as their buffers are. -/
theorem before_or_before (h : PoolOrdered H) {x y i j : ℕ} {block block' : PoolBlock}
    (hx : AccessAt H x i block) (hy : AccessAt H y j block') (hij : i ≠ j)
    (hshared : ¬ block.Apart block') :
    (∃ a, AllocAt H a j block' ∧ H.Before x a ∧ H.Before a y) ∨
      ∃ a, AllocAt H a i block ∧ H.Before y a ∧ H.Before a x := by
  obtain ⟨a, ha, hax⟩ := h.allocated x i block hx
  obtain ⟨a', ha', hay⟩ := h.allocated y j block' hy
  rcases Nat.lt_trichotomy a a' with hlt | rfl | hlt
  · exact .inl ⟨a', ha', h.reused a a' i j block block' ha ha' hlt hshared x hx, hay⟩
  · obtain ⟨z, -, hz, hz'⟩ := Timeline.At.and ha ha'
    injection Submitted.work.inj (hz.symm.trans hz') with heq
    exact absurd heq hij
  · have hshared' : ¬ block'.Apart block := fun hapart => hshared hapart.symm
    exact .inr ⟨a, ha, h.reused a' a j i block' block ha' ha hlt hshared' y hy, hax⟩

/-- Whatever order the device chooses, a read through a buffer finds what a write through the buffer
has left that is ordered before it, when the other writes through the same buffer are ordered around
the two: no write through another buffer gets between them. -/
theorem holds_of_write (h : PoolOrdered H) {rank : ℕ → ℕ} (hrank : H.Respects rank) {w r i : ℕ}
    {block : PoolBlock} {bytes : List UInt8}
    (hw : H.At w (·.submitted = .work (.write i block bytes))) (hr : AccessAt H r i block)
    (hbefore : H.Before w r)
    (hothers : ∀ x bytes', H.At x (·.submitted = .work (.write i block bytes')) → x ≠ w →
      H.Before x w ∨ H.Before r x)
    {k : ℕ} (hk : k < block.bytes) {v : UInt8} (hv : bytes[k]? = some v) :
    H.Holds (PoolWork.byteAt (block.ptr + k)) rank r v := by
  have hrange : block.ptr ≤ block.ptr + k ∧ block.ptr + k < block.ptr + block.bytes := by omega
  have hwrites : H.WritesAt (PoolWork.byteAt (block.ptr + k)) w v := by
    refine hw.imp fun x hx => ⟨_, hx, ?_⟩
    rw [PoolWork.byteAt, if_pos hrange, Nat.add_sub_cancel_left, hv]
  have haccess : AccessAt H w i block := hw.imp fun x hx => ⟨_, hx, rfl⟩
  refine Timeline.holds_of_ordered hrank hwrites hbefore fun x u hx hne => ?_
  obtain ⟨y, hy, work, hwork, hbyte⟩ := hx
  obtain ⟨j, block', bytes', rfl, hrange'⟩ := PoolWork.exists_write hbyte
  have hx : H.At x (·.submitted = .work (.write j block' bytes')) := ⟨y, hy, hwork⟩
  have haccess' : AccessAt H x j block' := hx.imp fun z hz => ⟨_, hz, rfl⟩
  by_cases hij : i = j
  · subst hij
    obtain ⟨a, ha, -⟩ := h.allocated w i block haccess
    obtain ⟨a', ha', -⟩ := h.allocated x i block' haccess'
    obtain ⟨-, rfl⟩ := h.once a a' i block block' ha ha'
    exact hothers x bytes' hx hne
  · have hshared := PoolBlock.not_apart hrange hrange'
    rcases h.before_or_before haccess haccess' hij hshared with ⟨a, ha, -, hax⟩ | ⟨a, ha, hxa, haw⟩
    · -- The other buffer is the later one: the reader is done before its allocation too.
      rcases h.before_or_before hr haccess' hij hshared with
        ⟨a', ha', hra, hax'⟩ | ⟨a', ha', hxa, har⟩
      · exact .inr (hra.trans hax')
      · obtain ⟨a'', ha'', haw'⟩ := h.allocated w i block haccess
        obtain ⟨rfl, -⟩ := h.once a' a'' i block block ha' ha''
        exact .inl (hxa.trans haw')
    · exact .inl (hxa.trans haw)

end PoolOrdered

/-- Work on the memory of no buffer. -/
def Neutral (x : Submission CudaStream ℕ PoolWork) : Prop :=
  ∀ work, x.submitted = .work work → work = .other

section Neutral

variable {H L : PoolTimeline} (hL : ∀ x ∈ L, Neutral x) {j i : ℕ} {block : PoolBlock}

include hL

theorem allocAt_append : AllocAt (H ++ L) j i block ↔ AllocAt H j i block :=
  Timeline.at_append_of_forall_not fun x hx h => by cases hL x hx _ h

theorem freeAt_append : FreeAt (H ++ L) j i block ↔ FreeAt H j i block :=
  Timeline.at_append_of_forall_not fun x hx h => by cases hL x hx _ h

theorem accessAt_append : AccessAt (H ++ L) j i block ↔ AccessAt H j i block := by
  refine Timeline.at_append_of_forall_not fun x hx h => ?_
  obtain ⟨work, hwork, haccess⟩ := h
  cases hL x hx work hwork
  cases haccess

end Neutral

section Concat

variable {H : PoolTimeline} {stream : CudaStream} {work : PoolWork} {j i : ℕ} {block : PoolBlock}

theorem allocAt_concat : AllocAt (H ++ [⟨stream, .work work⟩]) j i block ↔
    AllocAt H j i block ∨ j = H.length ∧ work = .alloc i block := by
  rw [AllocAt, Timeline.at_concat_iff, Submitted.work.injEq, AllocAt]

theorem freeAt_concat : FreeAt (H ++ [⟨stream, .work work⟩]) j i block ↔
    FreeAt H j i block ∨ j = H.length ∧ work = .free i block := by
  rw [FreeAt, Timeline.at_concat_iff, Submitted.work.injEq, FreeAt]

theorem accessAt_concat : AccessAt (H ++ [⟨stream, .work work⟩]) j i block ↔
    AccessAt H j i block ∨ j = H.length ∧ work.access? = some (i, block) := by
  rw [AccessAt, Timeline.at_concat_iff, AccessAt]
  refine or_congr_right (and_congr_right fun _ => ⟨?_, fun h => ⟨work, rfl, h⟩⟩)
  rintro ⟨work', hwork, h⟩
  obtain rfl := Submitted.work.inj hwork
  exact h

end Concat

/-! ### The state of a program -/

/-- What a buffer that has not been dropped owns. -/
structure PooledBuffer.Owned (S : CudaStream) (H : PoolTimeline) (handle : ℕ) (b : PooledBuffer) :
    Prop where
  id_eq : b.id = handle
  stream_eq : b.stream = S
  ctx_eq : ∀ c ∈ b.consumers, c.ctx = S.ctx
  /-- A consumer has waited for the allocation. -/
  granted : b.ptr ≠ 0 → ∃ a, AllocAt H a handle b.block ∧
    ∀ c ∈ b.consumers, ∃ w, On H w c ∧ H.Before a w
  /-- Only the streams with access have used the buffer. -/
  users : ∀ x block, AccessAt H x handle block → ∃ c ∈ S :: b.consumers, On H x c

theorem PooledBuffer.Owned.append {S : CudaStream} {H : PoolTimeline} {handle : ℕ}
    {b : PooledBuffer}
    (h : b.Owned S H handle) (L : PoolTimeline)
    (hnew : ∀ x block, AccessAt (H ++ L) x handle block →
      AccessAt H x handle block ∨ ∃ c ∈ S :: b.consumers, On (H ++ L) x c) :
    b.Owned S (H ++ L) handle where
  id_eq := h.id_eq
  stream_eq := h.stream_eq
  ctx_eq := h.ctx_eq
  granted hptr := by
    obtain ⟨a, ha, hconsumers⟩ := h.granted hptr
    refine ⟨a, ha.append L, fun c hc => ?_⟩
    obtain ⟨w, hw, hbefore⟩ := hconsumers c hc
    exact ⟨w, hw.append L, hbefore.append L⟩
  users x block hx := by
    rcases hnew x block hx with hx | hx
    · obtain ⟨c, hc, hon⟩ := h.users x block hx
      exact ⟨c, hc, hon.append L⟩
    · exact hx

/-- The invariant of a program, on its timeline, the number of its buffers, the live blocks of the
pool and the buffers that have not been dropped. -/
structure PoolInvariant (S : CudaStream) (H : PoolTimeline) (count : ℕ) (live : List PoolBlock)
    (owned : ℕ → Option PooledBuffer) : Prop where
  allocs : ∀ a i block, AllocAt H a i block → On H a S ∧ i < count ∧ 0 < block.bytes
  once : ∀ a a' i block block', AllocAt H a i block → AllocAt H a' i block' → a = a'
  accesses : ∀ x i block, AccessAt H x i block → ∃ a, AllocAt H a i block ∧ H.Before a x
  frees : ∀ f i block, FreeAt H f i block → On H f S ∧ i < count ∧ owned i = none
  freed : ∀ x f i block block', AccessAt H x i block → FreeAt H f i block' → H.Before x f
  apart : ∀ a a' i i' block block', AllocAt H a i block → AllocAt H a' i' block' → a < a' →
    block.Apart block' ∨ ∃ f, FreeAt H f i block ∧ f < a'
  lives : ∀ a i block, AllocAt H a i block → block ∈ live ∨ ∃ f, FreeAt H f i block
  owned_lt : ∀ i b, owned i = some b → i < count
  owns : ∀ i b, owned i = some b → b.Owned S H i

namespace PoolInvariant

variable {S : CudaStream} {H L : PoolTimeline} {count : ℕ} {live : List PoolBlock}
  {owned : ℕ → Option PooledBuffer}

theorem block_eq (h : PoolInvariant S H count live owned) {a a' i : ℕ} {block block' : PoolBlock}
    (ha : AllocAt H a i block) (ha' : AllocAt H a' i block') : block = block' := by
  obtain rfl := h.once a a' i block block' ha ha'
  obtain ⟨x, -, hx, hx'⟩ := Timeline.At.and ha ha'
  injection Submitted.work.inj (hx.symm.trans hx')

theorem unfreed (h : PoolInvariant S H count live owned) {i : ℕ} {b : PooledBuffer}
    (hb : owned i = some b) (f : ℕ) (block : PoolBlock) : ¬ FreeAt H f i block := by
  intro hf
  cases hb.symm.trans (h.frees f i block hf).2.2

/-- The accesses of a timeline with the invariant are ordered. -/
theorem ordered (h : PoolInvariant S H count live owned) : PoolOrdered H where
  allocated := h.accesses
  freed := h.freed
  once a a' i block block' ha ha' := ⟨h.once a a' i block block' ha ha', h.block_eq ha ha'⟩
  reused a a' i i' block block' ha ha' hlt hshared x hx := by
    obtain ⟨f, hf, hfa⟩ := (h.apart a a' i i' block block' ha ha' hlt).resolve_left hshared
    have hfree : H.Before f a' :=
      .of_stream (h.frees f i block hf).1 (h.allocs a' i' block' ha').1 hfa
    exact (h.freed x f i block block hx hf).trans hfree

/-- Submissions to the memory of no buffer. -/
theorem append (h : PoolInvariant S H count live owned) (hL : ∀ x ∈ L, Neutral x) :
    PoolInvariant S (H ++ L) count live owned where
  allocs a i block ha := by
    obtain ⟨hon, hrest⟩ := h.allocs a i block ((allocAt_append hL).1 ha)
    exact ⟨hon.append L, hrest⟩
  once a a' i block block' ha ha' :=
    h.once a a' i block block' ((allocAt_append hL).1 ha) ((allocAt_append hL).1 ha')
  accesses x i block hx := by
    obtain ⟨a, ha, hbefore⟩ := h.accesses x i block ((accessAt_append hL).1 hx)
    exact ⟨a, ha.append L, hbefore.append L⟩
  frees f i block hf := by
    obtain ⟨hon, hrest⟩ := h.frees f i block ((freeAt_append hL).1 hf)
    exact ⟨hon.append L, hrest⟩
  freed x f i block block' hx hf :=
    (h.freed x f i block block' ((accessAt_append hL).1 hx) ((freeAt_append hL).1 hf)).append L
  apart a a' i i' block block' ha ha' hlt := by
    refine (h.apart a a' i i' block block' ((allocAt_append hL).1 ha)
      ((allocAt_append hL).1 ha') hlt).imp_right ?_
    rintro ⟨f, hf, hfa⟩
    exact ⟨f, hf.append L, hfa⟩
  lives a i block ha := by
    refine (h.lives a i block ((allocAt_append hL).1 ha)).imp_right ?_
    rintro ⟨f, hf⟩
    exact ⟨f, hf.append L⟩
  owned_lt := h.owned_lt
  owns i b hb := (h.owns i b hb).append L fun x block hx => .inl ((accessAt_append hL).1 hx)

/-- A buffer is read or written on a stream with access to it. -/
theorem access (h : PoolInvariant S H count live owned) {handle : ℕ} {b : PooledBuffer}
    (hb : owned handle = some b) (hptr : b.ptr ≠ 0) {c : CudaStream} (hc : c ∈ S :: b.consumers)
    {work : PoolWork} (hwork : work.access? = some (handle, b.block)) :
    PoolInvariant S (H ++ [⟨c, .work work⟩]) count live owned := by
  have halloc {j i : ℕ} {block : PoolBlock}
      (hj : AllocAt (H ++ [⟨c, .work work⟩]) j i block) : AllocAt H j i block := by
    refine (allocAt_concat.1 hj).resolve_right fun h => ?_
    rw [h.2] at hwork
    cases hwork
  have hfree {j i : ℕ} {block : PoolBlock}
      (hj : FreeAt (H ++ [⟨c, .work work⟩]) j i block) : FreeAt H j i block := by
    refine (freeAt_concat.1 hj).resolve_right fun h => ?_
    rw [h.2] at hwork
    cases hwork
  obtain ⟨a₀, ha₀, hconsumers⟩ := (h.owns handle b hb).granted hptr
  have hlast : Timeline.Before (H ++ [⟨c, .work work⟩]) a₀ H.length := by
    rcases List.mem_cons.1 hc with rfl | hc
    · exact Timeline.before_concat _ (h.allocs a₀ handle b.block ha₀).1
    · obtain ⟨w, hw, hbefore⟩ := hconsumers c hc
      exact (hbefore.append _).trans (Timeline.before_concat _ hw)
  refine
    { allocs := fun a i block ha => ?_
      once := fun a a' i block block' ha ha' => h.once a a' i block block' (halloc ha) (halloc ha')
      accesses := fun x i block hx => ?_
      frees := fun f i block hf => ?_
      freed := fun x f i block block' hx hf => ?_
      apart := fun a a' i i' block block' ha ha' hlt => ?_
      lives := fun a i block ha => ?_
      owned_lt := h.owned_lt
      owns := fun i b' hb' => ?_ }
  · obtain ⟨hon, hrest⟩ := h.allocs a i block (halloc ha)
    exact ⟨hon.append _, hrest⟩
  · rcases accessAt_concat.1 hx with hx | ⟨rfl, haccess⟩
    · obtain ⟨a, ha, hbefore⟩ := h.accesses x i block hx
      exact ⟨a, ha.append _, hbefore.append _⟩
    · obtain ⟨rfl, rfl⟩ := Prod.mk.inj (Option.some.inj (hwork.symm.trans haccess))
      exact ⟨a₀, ha₀.append _, hlast⟩
  · obtain ⟨hon, hrest⟩ := h.frees f i block (hfree hf)
    exact ⟨hon.append _, hrest⟩
  · rcases accessAt_concat.1 hx with hx | ⟨rfl, haccess⟩
    · exact (h.freed x f i block block' hx (hfree hf)).append _
    · obtain ⟨rfl, rfl⟩ := Prod.mk.inj (Option.some.inj (hwork.symm.trans haccess))
      exact absurd (hfree hf) (h.unfreed hb f block')
  · refine (h.apart a a' i i' block block' (halloc ha) (halloc ha') hlt).imp_right ?_
    rintro ⟨f, hf, hfa⟩
    exact ⟨f, hf.append _, hfa⟩
  · refine (h.lives a i block (halloc ha)).imp_right ?_
    rintro ⟨f, hf⟩
    exact ⟨f, hf.append _⟩
  · refine (h.owns i b' hb').append _ fun x block hx => ?_
    rcases accessAt_concat.1 hx with hx | ⟨rfl, haccess⟩
    · exact .inl hx
    · obtain ⟨rfl, rfl⟩ := Prod.mk.inj (Option.some.inj (hwork.symm.trans haccess))
      obtain rfl : b = b' := Option.some.inj (hb.symm.trans hb')
      exact .inr ⟨c, hc, Timeline.at_concat H rfl⟩

/-- A buffer that owns no block is added. -/
theorem allocEmpty (h : PoolInvariant S H count live owned) {b : PooledBuffer}
    (hid : b.id = count) (hstream : b.stream = S) (hptr : b.ptr = 0)
    (hconsumers : b.consumers = []) :
    PoolInvariant S H (count + 1) live (Function.update owned count (some b)) where
  allocs a i block ha := by
    obtain ⟨hon, hlt, hpos⟩ := h.allocs a i block ha
    exact ⟨hon, Nat.lt_succ_of_lt hlt, hpos⟩
  once := h.once
  accesses := h.accesses
  frees f i block hf := by
    obtain ⟨hon, hlt, hnone⟩ := h.frees f i block hf
    exact ⟨hon, Nat.lt_succ_of_lt hlt, (Function.update_of_ne hlt.ne _ _).trans hnone⟩
  freed := h.freed
  apart := h.apart
  lives := h.lives
  owned_lt i b' hb' := by
    by_cases hi : i = count
    · exact hi ▸ Nat.lt_succ_self _
    · rw [Function.update_of_ne hi] at hb'
      exact Nat.lt_succ_of_lt (h.owned_lt i b' hb')
  owns i b' hb' := by
    by_cases hi : i = count
    · subst hi
      rw [Function.update_self] at hb'
      obtain rfl := Option.some.inj hb'
      refine ⟨hid, hstream, fun c hc => ?_, fun hne => absurd hptr hne, fun x block hx => ?_⟩
      · rw [hconsumers] at hc
        cases hc
      · obtain ⟨a, ha, -⟩ := h.accesses x i block hx
        exact absurd (h.allocs a i block ha).2.1 (Nat.lt_irrefl _)
    · rw [Function.update_of_ne hi] at hb'
      exact h.owns i b' hb'

/-- A buffer with a block of its own is added. -/
theorem alloc (h : PoolInvariant S H count live owned) {b : PooledBuffer} (hid : b.id = count)
    (hstream : b.stream = S) (hconsumers : b.consumers = []) (hpos : 0 < b.sizeBytes)
    (hplace : ∀ block ∈ live, block.Apart b.block) :
    PoolInvariant S (H ++ [⟨S, .work (.alloc count b.block)⟩]) (count + 1) (b.block :: live)
      (Function.update owned count (some b)) := by
  have hfree {j i : ℕ} {block : PoolBlock}
      (hj : FreeAt (H ++ [⟨S, .work (.alloc count b.block)⟩]) j i block) : FreeAt H j i block :=
    (freeAt_concat.1 hj).resolve_right fun h => by cases h.2
  have haccess {j i : ℕ} {block : PoolBlock}
      (hj : AccessAt (H ++ [⟨S, .work (.alloc count b.block)⟩]) j i block) : AccessAt H j i block :=
    (accessAt_concat.1 hj).resolve_right fun h => by cases h.2
  have hcount (a : ℕ) (block : PoolBlock) : ¬ AllocAt H a count block := fun ha =>
    Nat.lt_irrefl _ (h.allocs a count block ha).2.1
  refine
    { allocs := fun a i block ha => ?_
      once := fun a a' i block block' ha ha' => ?_
      accesses := fun x i block hx => ?_
      frees := fun f i block hf => ?_
      freed := fun x f i block block' hx hf =>
        (h.freed x f i block block' (haccess hx) (hfree hf)).append _
      apart := fun a a' i i' block block' ha ha' hlt => ?_
      lives := fun a i block ha => ?_
      owned_lt := fun i b' hb' => ?_
      owns := fun i b' hb' => ?_ }
  · rcases allocAt_concat.1 ha with ha | ⟨rfl, hnew⟩
    · obtain ⟨hon, hlt, hpos'⟩ := h.allocs a i block ha
      exact ⟨hon.append _, Nat.lt_succ_of_lt hlt, hpos'⟩
    · obtain ⟨rfl, rfl⟩ := PoolWork.alloc.inj hnew
      exact ⟨Timeline.at_concat H rfl, Nat.lt_succ_self _, hpos⟩
  · rcases allocAt_concat.1 ha with ha | ⟨rfl, hnew⟩ <;>
      rcases allocAt_concat.1 ha' with ha' | ⟨rfl, hnew'⟩
    · exact h.once a a' i block block' ha ha'
    · obtain ⟨rfl, -⟩ := PoolWork.alloc.inj hnew'
      exact absurd ha (hcount a block)
    · obtain ⟨rfl, -⟩ := PoolWork.alloc.inj hnew
      exact absurd ha' (hcount a' block')
    · rfl
  · obtain ⟨a, ha, hbefore⟩ := h.accesses x i block (haccess hx)
    exact ⟨a, ha.append _, hbefore.append _⟩
  · obtain ⟨hon, hlt, hnone⟩ := h.frees f i block (hfree hf)
    exact ⟨hon.append _, Nat.lt_succ_of_lt hlt, (Function.update_of_ne hlt.ne _ _).trans hnone⟩
  · rcases allocAt_concat.1 ha' with ha' | ⟨rfl, hnew⟩
    · have ha : AllocAt H a i block :=
        (allocAt_concat.1 ha).resolve_right fun h => absurd (hlt.trans ha'.lt) (by omega)
      refine (h.apart a a' i i' block block' ha ha' hlt).imp_right ?_
      rintro ⟨f, hf, hfa⟩
      exact ⟨f, hf.append _, hfa⟩
    · obtain ⟨rfl, rfl⟩ := PoolWork.alloc.inj hnew
      have ha : AllocAt H a i block := (allocAt_concat.1 ha).resolve_right fun h => hlt.ne h.1
      refine (h.lives a i block ha).imp (hplace block) ?_
      rintro ⟨f, hf⟩
      exact ⟨f, hf.append _, hf.lt⟩
  · rcases allocAt_concat.1 ha with ha | ⟨-, hnew⟩
    · refine (h.lives a i block ha).imp (List.mem_cons_of_mem _) ?_
      rintro ⟨f, hf⟩
      exact ⟨f, hf.append _⟩
    · obtain ⟨-, rfl⟩ := PoolWork.alloc.inj hnew
      exact .inl List.mem_cons_self
  · by_cases hi : i = count
    · exact hi ▸ Nat.lt_succ_self _
    · rw [Function.update_of_ne hi] at hb'
      exact Nat.lt_succ_of_lt (h.owned_lt i b' hb')
  · by_cases hi : i = count
    · subst hi
      rw [Function.update_self] at hb'
      obtain rfl := Option.some.inj hb'
      refine ⟨hid, hstream, fun c hc => ?_, fun _ => ⟨H.length, Timeline.at_concat H rfl, ?_⟩,
        fun x block hx => ?_⟩
      · rw [hconsumers] at hc
        cases hc
      · intro c hc
        rw [hconsumers] at hc
        cases hc
      · obtain ⟨a, ha, -⟩ := h.accesses x i block (haccess hx)
        exact absurd ha (hcount a block)
    · rw [Function.update_of_ne hi] at hb'
      exact (h.owns i b' hb').append _ fun x block hx => .inl (haccess hx)

/-- A stream that has waited for the allocation of a buffer is granted access. -/
theorem share (h : PoolInvariant S H count live owned) {handle : ℕ} {b : PooledBuffer}
    (hb : owned handle = some b) {c : CudaStream} (hctx : c.ctx = S.ctx) {w : ℕ} (hw : On H w c)
    (hwaits : ∀ a block, AllocAt H a handle block → H.Before a w) :
    PoolInvariant S H count live
      (Function.update owned handle (some { b with consumers := b.consumers ++ [c] })) where
  allocs := h.allocs
  once := h.once
  accesses := h.accesses
  frees f i block hf := by
    obtain ⟨hon, hlt, hnone⟩ := h.frees f i block hf
    refine ⟨hon, hlt, ?_⟩
    have hi : i ≠ handle := by
      rintro rfl
      cases hb.symm.trans hnone
    rw [Function.update_of_ne hi, hnone]
  freed := h.freed
  apart := h.apart
  lives := h.lives
  owned_lt i b' hb' := by
    by_cases hi : i = handle
    · exact hi ▸ h.owned_lt handle b hb
    · rw [Function.update_of_ne hi] at hb'
      exact h.owned_lt i b' hb'
  owns i b' hb' := by
    by_cases hi : i = handle
    · subst hi
      rw [Function.update_self] at hb'
      obtain rfl := Option.some.inj hb'
      have ho := h.owns i b hb
      refine ⟨ho.id_eq, ho.stream_eq, fun c' hc' => ?_, fun hptr => ?_, fun x block hx => ?_⟩
      · rcases List.mem_append.1 hc' with hc' | hc'
        · exact ho.ctx_eq c' hc'
        · exact List.mem_singleton.1 hc' ▸ hctx
      · obtain ⟨a, ha, hconsumers⟩ := ho.granted hptr
        refine ⟨a, ha, fun c' hc' => ?_⟩
        rcases List.mem_append.1 hc' with hc' | hc'
        · exact hconsumers c' hc'
        · exact ⟨w, List.mem_singleton.1 hc' ▸ hw, hwaits a _ ha⟩
      · obtain ⟨c', hc', hon⟩ := ho.users x block hx
        exact ⟨c', List.mem_append_left [c] hc', hon⟩
    · rw [Function.update_of_ne hi] at hb'
      exact h.owns i b' hb'

/-- A buffer is dropped. -/
theorem drop (h : PoolInvariant S H count live owned) (handle : ℕ) :
    PoolInvariant S H count live (Function.update owned handle none) where
  allocs := h.allocs
  once := h.once
  accesses := h.accesses
  frees f i block hf := by
    obtain ⟨hon, hlt, hnone⟩ := h.frees f i block hf
    refine ⟨hon, hlt, ?_⟩
    by_cases hi : i = handle
    · rw [hi, Function.update_self]
    · rw [Function.update_of_ne hi, hnone]
  freed := h.freed
  apart := h.apart
  lives := h.lives
  owned_lt i b hb := by
    by_cases hi : i = handle
    · rw [hi, Function.update_self] at hb
      cases hb
    · rw [Function.update_of_ne hi] at hb
      exact h.owned_lt i b hb
  owns i b hb := by
    by_cases hi : i = handle
    · rw [hi, Function.update_self] at hb
      cases hb
    · rw [Function.update_of_ne hi] at hb
      exact h.owns i b hb

/-- The block of a dropped buffer is freed, after all that has been done with the buffer. -/
theorem free (h : PoolInvariant S H count live owned) {handle : ℕ} {block : PoolBlock}
    (halloc : ∃ a, AllocAt H a handle block) (hnone : owned handle = none)
    (hunfreed : ∀ f block', ¬ FreeAt H f handle block')
    (husers : ∀ x block', AccessAt H x handle block' → ∃ w, On H w S ∧ (x = w ∨ H.Before x w)) :
    PoolInvariant S (H ++ [⟨S, .work (.free handle block)⟩]) count (live.erase block) owned := by
  have halloc' {j i : ℕ} {block' : PoolBlock}
      (hj : AllocAt (H ++ [⟨S, .work (.free handle block)⟩]) j i block') : AllocAt H j i block' :=
    (allocAt_concat.1 hj).resolve_right fun h => by cases h.2
  have haccess {j i : ℕ} {block' : PoolBlock}
      (hj : AccessAt (H ++ [⟨S, .work (.free handle block)⟩]) j i block') : AccessAt H j i block' :=
    (accessAt_concat.1 hj).resolve_right fun h => by cases h.2
  obtain ⟨a₀, ha₀⟩ := halloc
  refine
    { allocs := fun a i block' ha => ?_
      once := fun a a' i block₁ block₂ ha ha' =>
        h.once a a' i block₁ block₂ (halloc' ha) (halloc' ha')
      accesses := fun x i block' hx => ?_
      frees := fun f i block' hf => ?_
      freed := fun x f i block₁ block₂ hx hf => ?_
      apart := fun a a' i i' block₁ block₂ ha ha' hlt => ?_
      lives := fun a i block' ha => ?_
      owned_lt := h.owned_lt
      owns := fun i b hb => (h.owns i b hb).append _ fun x block' hx => .inl (haccess hx) }
  · obtain ⟨hon, hrest⟩ := h.allocs a i block' (halloc' ha)
    exact ⟨hon.append _, hrest⟩
  · obtain ⟨a, ha, hbefore⟩ := h.accesses x i block' (haccess hx)
    exact ⟨a, ha.append _, hbefore.append _⟩
  · rcases freeAt_concat.1 hf with hf | ⟨rfl, hnew⟩
    · obtain ⟨hon, hrest⟩ := h.frees f i block' hf
      exact ⟨hon.append _, hrest⟩
    · obtain ⟨rfl, rfl⟩ := PoolWork.free.inj hnew
      exact ⟨Timeline.at_concat H rfl, (h.allocs a₀ handle block ha₀).2.1, hnone⟩
  · rcases freeAt_concat.1 hf with hf | ⟨rfl, hnew⟩
    · exact (h.freed x f i block₁ block₂ (haccess hx) hf).append _
    · obtain ⟨rfl, rfl⟩ := PoolWork.free.inj hnew
      obtain ⟨w, hw, rfl | hbefore⟩ := husers x block₁ (haccess hx)
      · exact Timeline.before_concat _ hw
      · exact (hbefore.append _).trans (Timeline.before_concat _ hw)
  · refine (h.apart a a' i i' block₁ block₂ (halloc' ha) (halloc' ha') hlt).imp_right ?_
    rintro ⟨f, hf, hfa⟩
    exact ⟨f, hf.append _, hfa⟩
  · -- Another block that is still live is not the freed one: two equal blocks are not apart.
    by_cases hi : i = handle
    · subst hi
      obtain rfl := h.block_eq ha₀ (halloc' ha)
      exact .inr ⟨H.length, Timeline.at_concat H rfl⟩
    · refine (h.lives a i block' (halloc' ha)).elim (fun hlive => ?_) fun ⟨f, hf⟩ =>
        .inr ⟨f, hf.append _⟩
      by_cases hblock : block' = block
      · subst hblock
        have hshared : ¬ block'.Apart block' := by
          have hpos := (h.allocs a i block' (halloc' ha)).2.2
          unfold PoolBlock.Apart
          omega
        rcases Nat.lt_trichotomy a a₀ with hlt | rfl | hlt
        · obtain ⟨f, hf, -⟩ :=
            (h.apart a a₀ i handle block' block' (halloc' ha) ha₀ hlt).resolve_left
            hshared
          exact .inr ⟨f, hf.append _⟩
        · obtain ⟨x, -, hx, hx'⟩ := Timeline.At.and (halloc' ha) ha₀
          injection Submitted.work.inj (hx.symm.trans hx') with hid
          exact absurd hid hi
        · obtain ⟨f, hf, -⟩ :=
            (h.apart a₀ a handle i block' block' ha₀ (halloc' ha) hlt).resolve_left
            hshared
          exact absurd hf (hunfreed f block')
      · exact .inl ((List.mem_erase_of_ne hblock).2 hlive)

end PoolInvariant

end NNIS
