import NNIS.Core.PortableKvHistory
import NNIS.Cpu.SyntheticShadow
import NNIS.Cpu.TokenHistory

/-!
# A portable session follows its tokens

The buffers, sums and rows of a session are determined by the tokens it remembers: the running sum
counts the committed tokens on each axis, every layer of the cache holds their embeddings, and the
logits are the counts of the published tokens. A call of the session is the call on the tokens, or
the host has refused memory and the session is left between two of the events of the call.

## Main definitions

* `CpuPortableSession.Follows` — a session and the tokens it remembers.
* `CpuPortableSession.Performs` — a computation that does the events of a call.

## Main results

* `CpuPortableSession.advanceKv_performs`, `CpuPortableSession.truncate_performs`,
  `CpuPortableSession.reset_performs`, `CpuPortableSession.prompt_performs` — the operations of a
  call.
-/

set_option autoImplicit false

namespace NNIS

namespace CpuPortableSession

open Outcome CpuF32 SyntheticPortableModelSpecV1 TokenHistory

/-! ### Sessions and histories -/

/-- The rows of the cache for committed tokens. -/
def committedRows (spec : SyntheticPortableModelSpecV1) (mode : PortableKvStorageModeV1)
    (committed : List ℕ) : KvRowLists where
  layers := spec.layers
  capacity := spec.capacity
  rowWidth := spec.hiddenSize
  mode := mode
  rows layer := if layer < spec.layers then committed.map spec.embeddingRow else []

/-- The parts of a session that no call changes. -/
structure Built (spec : SyntheticPortableModelSpecV1) (s : CpuPortableSession) : Prop where
  spec_eq : s.spec = spec
  device_eq : s.device.maxBufferBytes = 2 ^ 20
  kernels_eq : s.kernels.maxScratchBytes = max spec.hiddenSize spec.vocabSize * 4
  embedding : IsTensor s.embedding spec.embeddingTable
  lmHead : IsTensor s.lmHead spec.headTable
  table_le : spec.vocabSize * spec.hiddenSize * 4 ≤ 2 ^ 20

/-- The session remembers the tokens of the history. -/
structure Follows (spec : SyntheticPortableModelSpecV1) (mode : PortableKvStorageModeV1)
    (h : TokenHistory) (s : CpuPortableSession) : Prop extends Built spec s where
  rows_eq : s.kv.rowLists = committedRows spec mode h.committed
  runningSum_eq : s.runningSum = spec.sumOf h.committed
  pendingRow_eq : s.pendingRow = h.pending.map spec.embeddingRow
  room : h.pending.isSome → h.committed.length < spec.capacity
  logits_eq : s.logits = TokenHistory.logits spec h.published
  position_eq : s.position = h.committed.length
  hasShadow_eq : s.fp4Shadow.isSome = mode.isFp4
  fits : ∀ shadow, s.fp4Shadow = some shadow → shadow.Fits s.kv
  restores : h.synced = true → ∀ shadow, s.fp4Shadow = some shadow → shadow.Restores s.kv

namespace Follows

variable {spec : SyntheticPortableModelSpecV1} {mode : PortableKvStorageModeV1} {h : TokenHistory}
  {s : CpuPortableSession}

theorem length_eq (hs : Follows spec mode h s) : s.kv.length = h.committed.length := by
  rw [← s.kv.length_rowLists, hs.rows_eq]
  change (if 0 < spec.layers then _ else _ : List (List F32)).length = _
  rw [if_pos spec.layers_mem.1, List.length_map]

theorem layers_eq (hs : Follows spec mode h s) : s.kv.layers = spec.layers :=
  congrArg KvRowLists.layers hs.rows_eq

theorem capacity_eq (hs : Follows spec mode h s) : s.kv.capacity = spec.capacity :=
  congrArg KvRowLists.capacity hs.rows_eq

theorem rowWidth_eq (hs : Follows spec mode h s) : s.kv.rowWidth = spec.hiddenSize :=
  congrArg KvRowLists.rowWidth hs.rows_eq

theorem length_le (hs : Follows spec mode h s) : h.committed.length ≤ 1024 := by
  rw [← hs.length_eq]
  exact s.kv.length_le.trans s.kv.capacity_mem.2

theorem length_lt (hs : Follows spec mode h s) : h.committed.length < 2 ^ 24 :=
  Nat.lt_of_le_of_lt hs.length_le (by norm_num)

end Follows

/-! ### Steps of a session -/

variable {granted : Prop} {α β : Type}

/-- The session, on a host that grants memory if it is to. -/
def At (granted : Prop) (s₀ : CpuPortableSession) (s : CpuPortableSession × Allocator) : Prop :=
  s.1 = s₀ ∧ (granted → s.2.Grants)

variable {s₀ : CpuPortableSession} {Q : β → CpuPortableSession × Allocator → Prop}
  {E : Stop PortableSessionError → CpuPortableSession × Allocator → Prop}

/-- A computation that asks the host for nothing. -/
theorem step_bind_spec {m : SessionM α} {f : α → SessionM β} {a : α} {s₁ : CpuPortableSession}
    (hrun : ∀ host, m.run (s₀, host) = (.ok a, (s₁, host)))
    (hf : Fallible.Spec (At granted s₁) (f a) Q E) :
    Fallible.Spec (At granted s₀) (m >>= f) Q E := by
  rintro ⟨s, host⟩ ⟨rfl, hhost⟩
  rw [Fallible.run_bind_ok (hrun host)]
  exact hf _ ⟨rfl, hhost⟩

theorem this_bind_spec {f : CpuPortableSession → SessionM β}
    (hf : Fallible.Spec (At granted s₀) (f s₀) Q E) :
    Fallible.Spec (At granted s₀) (this >>= f) Q E :=
  step_bind_spec (fun _ => rfl) hf

theorem update_bind_spec {g : CpuPortableSession → CpuPortableSession} {f : PUnit → SessionM β}
    (hf : Fallible.Spec (At granted (g s₀)) (f ⟨⟩) Q E) :
    Fallible.Spec (At granted s₀) (update g >>= f) Q E :=
  step_bind_spec (fun _ => rfl) hf

theorem run_onCache {m : Fallible PortableKvCacheV1 (Stop PortableSessionError) PUnit}
    {kv : PortableKvCacheV1} (hrun : m.run s₀.kv = (.ok ⟨⟩, kv)) (host : Allocator) :
    (onCache m).run (s₀, host) = (.ok ⟨⟩, ({ s₀ with kv }, host)) := by
  rw [onCache, Fallible.run_zoom]
  dsimp only
  rw [hrun]

/-- A computation on the host returns what it delivers, or the session stops as it is. -/
theorem onHost_bind_spec {m : SessionHostM α} {R : α → Prop} {f : α → SessionM β}
    (hm : Delivers granted IsBackend m R)
    (hE : ∀ e s, IsBackend e → ¬ granted → s.1 = s₀ → E e s)
    (hf : ∀ a, R a → Fallible.Spec (At granted s₀) (f a) Q E) :
    Fallible.Spec (At granted s₀) (onHost m >>= f) Q E := by
  have hzoom : Fallible.Spec (At granted s₀) (onHost m)
      (fun a s => R a ∧ At granted s₀ s) fun e s => E e s := by
    refine Fallible.Spec.of_forall fun s hs => ?_
    have hlift : Fallible.Spec _ (onHost m) _ _ := Fallible.Spec.zoom s hm
    refine hlift.conseq (fun _ hs' => ⟨hs', hs' ▸ hs.2⟩) ?_ ?_
    · rintro a _ ⟨host, ⟨ha, hhost⟩, rfl⟩
      exact ⟨ha, hs.1, hhost⟩
    · rintro e _ ⟨host, ⟨he, hg⟩, rfl⟩
      exact hE e _ he hg hs.1
  exact hzoom.bind fun a s hs => hf a hs.1 s hs.2

/-! ### Kernels on the tokens -/

section Kernels

variable {spec : SyntheticPortableModelSpecV1} {s : CpuPortableSession} {committed : List ℕ}
  {token : ℕ}

theorem Built.hidden_le (hs : Built spec s) : spec.hiddenSize * 4 ≤ s.device.maxBufferBytes := by
  have := spec.hiddenSize_mem.2
  rw [hs.device_eq]
  simp only [maxSyntheticSessionDim] at this
  omega

theorem Built.vocab_le (hs : Built spec s) : spec.vocabSize * 4 ≤ s.device.maxBufferBytes := by
  have := spec.vocabSize_mem.2
  rw [hs.device_eq]
  simp only [maxSyntheticSessionDim] at this
  omega

theorem Built.lt_wordLimit (hs : Built spec s) {n : ℕ} (h : n ≤ s.device.maxBufferBytes) :
    n < wordLimit :=
  Nat.lt_of_le_of_lt (h.trans hs.device_eq.le) (by decide)

/-- A zeroed buffer. -/
theorem zeros_delivers {n : ℕ} (hpos : 0 < n)
    (hle : n * 4 ≤ s.device.maxBufferBytes) :
    Delivers granted IsBackend (tensor s.device (List.replicate n (.zero false))) fun buffer =>
      IsTensor buffer (List.replicate n (.zero false)) := by
  refine tensor_delivers s.device (by simpa using hpos) ?_ (by simpa using hle)
  intro x hx
  rw [List.eq_of_mem_replicate hx]
  decide +kernel

theorem Built.gatherEmbedding_delivers (hs : Built spec s) (htoken : token < spec.vocabSize) :
    Delivers granted IsBackend (s.gatherEmbedding token)
      fun row => row = spec.embeddingRow token := by
  have hhidden := spec.hiddenSize_mem.1
  rw [gatherEmbedding, hs.spec_eq]
  refine (zeros_delivers hhidden hs.hidden_le).bind fun row hrow => ?_
  have hroom : row.Room ((List.range spec.hiddenSize).map
      fun i => token * spec.hiddenSize + i).length := by
    simpa using hrow.toRoom
  refine (portable_delivers (s.kernels.gather_delivers hs.embedding.toStores ?_ ?_ hroom ?_)).bind
    fun written hwritten => ?_
  · simpa using hhidden.ne'
  · intro i hi
    obtain ⟨j, hj, rfl⟩ := List.mem_map.1 hi
    rw [spec.length_embeddingTable]
    calc token * spec.hiddenSize + j
        < token * spec.hiddenSize + spec.hiddenSize := Nat.add_lt_add_left (List.mem_range.1 hj) _
      _ = (token + 1) * spec.hiddenSize := (Nat.succ_mul ..).symm
      _ ≤ spec.vocabSize * spec.hiddenSize := Nat.mul_le_mul_right _ htoken
  · rw [List.length_map, List.length_range, hs.kernels_eq]
    exact Nat.mul_le_mul_right 4 (Nat.le_max_left _ _)
  · rw [gather_embeddingTable htoken] at hwritten
    refine readF32_delivers ⟨hwritten.1, ?_⟩ (hs.lt_wordLimit ?_)
    · rw [hwritten.2, hrow.usages_eq]
    · rw [length_embeddingRow]
      exact hs.hidden_le

theorem Built.addToSum_delivers (hs : Built spec s) (hle : committed.length ≤ 1024)
    {sumBuf rowBuf : CpuBuffer} (hsum : IsTensor sumBuf (spec.sumOf committed))
    (hrow : IsTensor rowBuf (spec.embeddingRow token)) :
    Delivers granted IsBackend (s.addToSum sumBuf rowBuf) fun out =>
      IsTensor out (spec.sumOf (committed ++ [token])) := by
  have hlt : committed.length < 2 ^ 24 := Nat.lt_of_le_of_lt hle (by norm_num)
  have hlt' : (committed ++ [token]).length < 2 ^ 24 := by
    rw [List.length_append, List.length_singleton]
    exact Nat.lt_of_le_of_lt (Nat.succ_le_succ hle) (by norm_num)
  have hadd : List.zipWith CpuF32BinaryOp.add.apply (spec.sumOf committed)
      (spec.embeddingRow token) = spec.sumOf (committed ++ [token]) := sumOf_concat hlt token
  rw [addToSum, hs.spec_eq]
  refine (zeros_delivers spec.hiddenSize_mem.1 hs.hidden_le).bind fun out hout => ?_
  have hroom : out.Room (spec.sumOf committed).length := by simpa using hout.toRoom
  refine (portable_delivers (s.kernels.binary_delivers .add hsum.toStores hrow.toStores ?_ hroom
    ?_ ?_)).bind fun written hwritten => ?_
  · rw [length_sumOf, length_embeddingRow]
  · rw [length_sumOf, hs.kernels_eq]
    exact Nat.mul_le_mul_right 4 (Nat.le_max_left _ _)
  · rw [hadd]
    exact finite_sumOf hlt'
  · rw [hadd] at hwritten
    refine Delivers.pure ⟨hwritten.1, ?_⟩
    rw [hwritten.2, hout.usages_eq]

/-- The head projects the sum of tokens to their logits, by any kernels with room for them. -/
theorem Built.projectKn_delivers (hs : Built spec s) (hlt : committed.length < 2 ^ 24)
    {input out : CpuBuffer} (hinput : IsTensor input (spec.sumOf committed))
    (hout : out.Room spec.vocabSize) {kernels : CpuF32KernelsV1}
    (hscratch : spec.vocabSize * 4 ≤ kernels.maxScratchBytes) :
    Delivers granted IsRefusal
      (kernels.projectKn input s.lmHead out spec.hiddenSize spec.vocabSize) fun written =>
        written.1.Stores (spec.logitsOf committed) ∧ written.1.descriptor = out.descriptor := by
  have hlogits : ((List.range spec.vocabSize).map fun v =>
      partialLogit spec committed v (spec.sumOf committed).length) = spec.logitsOf committed := by
    rw [length_sumOf]
    rfl
  have htable : spec.headTable.length < wordLimit := by
    rw [length_headTable, Nat.mul_comm]
    have := spec.hiddenSize_mem.1
    have hle := hs.table_le
    have hword : wordLimit = 2 ^ 64 := rfl
    omega
  have hproject : Delivers granted IsRefusal (kernels.projectKn input s.lmHead out
      (spec.sumOf committed).length spec.vocabSize) _ :=
    kernels.projectKn_delivers hinput.toStores hs.lmHead.toStores
      (by rw [length_headTable, length_sumOf]) htable hout hscratch
      (partialLogit spec committed) (fun column _ => partialLogit_zero column)
      (fun column hcolumn row hrow hplace => partialLogit_succ hlt hcolumn hrow hplace)
      fun column _ row _ => finite_partialLogit hlt column row
  rw [hlogits, length_sumOf] at hproject
  exact hproject

theorem Built.projectLogits_delivers (hs : Built spec s) (hle : committed.length ≤ 1024)
    {input : CpuBuffer} (hinput : IsTensor input (spec.sumOf committed)) :
    Delivers granted IsBackend (s.projectLogits input) fun logits =>
      logits = spec.logitsOf committed := by
  have hscratch : spec.vocabSize * 4 ≤ s.kernels.maxScratchBytes := by
    rw [hs.kernels_eq]
    exact Nat.mul_le_mul_right 4 (Nat.le_max_right _ _)
  rw [projectLogits, hs.spec_eq]
  refine (zeros_delivers spec.vocabSize_mem.1 hs.vocab_le).bind fun out hout => ?_
  have hroom : out.Room spec.vocabSize := by simpa using hout.toRoom
  have hlt : committed.length < 2 ^ 24 := Nat.lt_of_le_of_lt hle (by norm_num)
  refine (portable_delivers (hs.projectKn_delivers hlt hinput hroom hscratch)).bind
    fun written hwritten => ?_
  refine readF32_delivers ⟨hwritten.1, ?_⟩ (hs.lt_wordLimit ?_)
  · rw [hwritten.2, hout.usages_eq]
  · rw [logitsOf, List.length_map, List.length_range]
    exact hs.vocab_le

theorem Built.row_delivers (hs : Built spec s) (token : ℕ) :
    Delivers granted IsBackend (tensor s.device (spec.embeddingRow token)) fun buffer =>
      IsTensor buffer (spec.embeddingRow token) := by
  refine tensor_delivers s.device ?_ (spec.finite_embeddingRow token) ?_
  · rw [length_embeddingRow]
    exact spec.hiddenSize_mem.1
  · rw [length_embeddingRow]
    exact hs.hidden_le

theorem Follows.sum_delivers {mode : PortableKvStorageModeV1} {h : TokenHistory}
    (hs : Follows spec mode h s) :
    Delivers granted IsBackend (tensor s.device s.runningSum) fun buffer =>
      IsTensor buffer (spec.sumOf h.committed) := by
  rw [hs.runningSum_eq]
  refine tensor_delivers s.device ?_ (finite_sumOf hs.length_lt) ?_
  · rw [length_sumOf]
    exact spec.hiddenSize_mem.1
  · rw [length_sumOf]
    exact hs.hidden_le

end Kernels

/-! ### Computations that do the events of a call -/

section Performs

variable (granted) (spec : SyntheticPortableModelSpecV1) (mode : PortableKvStorageModeV1)

/-- The host has refused memory between two of the events. -/
def Interrupted (h : TokenHistory) (events : List TokenEvent) (e : Stop PortableSessionError)
    (s : CpuPortableSession × Allocator) : Prop :=
  (IsBackend e ∧ ¬ granted) ∧ ∃ done, done <+: events ∧ Follows spec mode (h.afterAll done) s.1

/-- From a session that follows a history the computation does the events and has the result, or is
interrupted. -/
def Performs (h : TokenHistory) (events : List TokenEvent)
    (result : Outcome PortableSessionError α) (m : SessionM α) : Prop :=
  ∀ s₀, Follows spec mode h s₀ → Fallible.Spec (At granted s₀) m
    (fun a s => result = .ok a ∧ Follows spec mode (h.afterAll events) s.1 ∧
      (granted → s.2.Grants))
    fun e s => (result = .error e ∧ Follows spec mode (h.afterAll events) s.1 ∧
      (granted → s.2.Grants)) ∨ Interrupted granted spec mode h events e s

variable {granted spec mode} {h : TokenHistory} {events events' : List TokenEvent}

/-- A computation that is refused by a check. -/
theorem Performs.refused {m : SessionM α} {e : Stop PortableSessionError}
    (hm : ∀ s : CpuPortableSession × Allocator, Follows spec mode h s.1 →
      m.run s = (.error e, s)) : Performs granted spec mode h [] (.error e) m := by
  rintro s₀ hs₀ s ⟨rfl, hhost⟩
  rw [hm s hs₀]
  exact .inl ⟨rfl, hs₀, hhost⟩

/-- The rest of the events, from a session behind the first ones. -/
theorem Performs.after {m : SessionM α} {result : Outcome PortableSessionError α}
    {s₀ : CpuPortableSession} (hs₀ : Follows spec mode (h.afterAll events) s₀)
    (hm : Performs granted spec mode (h.afterAll events) events' result m) :
    Fallible.Spec (At granted s₀) m
      (fun a s => result = .ok a ∧ Follows spec mode (h.afterAll (events ++ events')) s.1 ∧
        (granted → s.2.Grants))
      fun e s => (result = .error e ∧ Follows spec mode (h.afterAll (events ++ events')) s.1 ∧
        (granted → s.2.Grants)) ∨ Interrupted granted spec mode h (events ++ events') e s := by
  refine (hm s₀ hs₀).conseq (fun _ hs => hs) ?_ ?_
  · rintro b s hs
    rwa [afterAll_append]
  · rintro e s (hs | ⟨he, done, hdone, hs⟩)
    · rw [afterAll_append]
      exact .inl hs
    · refine .inr ⟨he, events ++ done, (List.prefix_append_right_inj events).2 hdone, ?_⟩
      rwa [afterAll_append]

theorem Performs.bind {m : SessionM α} {f : α → SessionM β} {a : α}
    {result : Outcome PortableSessionError β} (hm : Performs granted spec mode h events (.ok a) m)
    (hf : Performs granted spec mode (h.afterAll events) events' result (f a)) :
    Performs granted spec mode h (events ++ events') result (m >>= f) := by
  intro s₀ hs₀
  refine Fallible.Spec.bind ((hm s₀ hs₀).conseq (fun _ hs => hs) (fun _ _ hs => hs) ?_)
    fun b => Fallible.Spec.of_forall ?_
  · rintro e s (⟨heq, -⟩ | ⟨he, done, hdone, hs⟩)
    · cases heq
    · exact .inr ⟨he, done, hdone.trans (List.prefix_append ..), hs⟩
  · rintro s ⟨heq, hs, hhost⟩
    obtain rfl := Except.ok.inj heq
    refine (hf.after hs).conseq ?_ (fun _ _ hs' => hs') fun _ _ hs' => hs'
    rintro _ rfl
    exact ⟨rfl, hhost⟩

theorem Performs.bind_error {m : SessionM α} {f : α → SessionM β} {e : Stop PortableSessionError}
    (hm : Performs granted spec mode h events (.error e) m) :
    Performs granted spec mode h events (.error e) (m >>= f) := by
  intro s₀ hs₀
  refine Fallible.Spec.bind ((hm s₀ hs₀).conseq (fun _ hs => hs) (fun _ _ hs => hs) ?_)
    fun b s hs => absurd hs.1 (by simp)
  rintro e' s (⟨heq, hs⟩ | hs)
  · exact .inl ⟨congrArg _ (Except.error.inj heq), hs⟩
  · exact .inr hs

end Performs

/-! ### Operations -/

section Operations

variable {spec : SyntheticPortableModelSpecV1} {mode : PortableKvStorageModeV1} {h : TokenHistory}
  {log2Ceil : F64 → ℤ}

/-- The host refuses memory before the first event. -/
theorem Follows.interrupted {s : CpuPortableSession × Allocator} {e : Stop PortableSessionError}
    {events : List TokenEvent} {s₀ : CpuPortableSession} (hs : Follows spec mode h s₀)
    (he : IsBackend e) (hg : ¬ granted) (heq : s.1 = s₀) :
    Interrupted granted spec mode h events e s :=
  ⟨⟨he, hg⟩, [], List.nil_prefix, heq ▸ hs⟩

theorem Built.validateToken_eq {s : CpuPortableSession} (hs : Built spec s) {token : UInt32}
    (h : token.toNat < spec.vocabSize) : s.validateToken token = .ok token.toNat := by
  rw [validateToken, hs.spec_eq, require_of _ h]
  rfl

theorem stageToken_performs {token : UInt32} (hpending : h.pending = none)
    (hrefusal : refusal spec h.committed.length token.toNat = none) :
    Performs granted spec mode h [.stage token.toNat]
      (.ok (TokenHistory.logits spec (h.committed ++ [token.toNat]))) (stageToken token) := by
  obtain ⟨htoken, hroom⟩ := refusal_eq_none_iff.1 hrefusal
  intro s₀ hs₀
  have hle := hs₀.length_le
  have hstop {e : Stop PortableSessionError} {s : CpuPortableSession × Allocator}
      (he : IsBackend e) (hg : ¬ granted) (heq : s.1 = s₀) :
      Interrupted granted spec mode h [.stage token.toNat] e s := hs₀.interrupted he hg heq
  have hnone : s₀.pendingRow.isSome = false := by rw [hs₀.pendingRow_eq, hpending]; rfl
  have hnext : checkedAdd s₀.kv.length 1 = some (s₀.kv.length + 1) :=
    checkedAdd_of_lt (by
      rw [hs₀.length_eq]; exact Nat.lt_of_le_of_lt (Nat.succ_le_succ hle) (by decide))
  have hcapacity : s₀.kv.length + 1 ≤ s₀.spec.capacity := by
    rw [hs₀.length_eq, hs₀.spec_eq]
    exact hroom
  rw [stageToken]
  refine this_bind_spec ?_
  simp only [require_of _ hnone, hs₀.validateToken_eq htoken, hnext, okOr, require_of _ hcapacity,
    Fallible.ofExcept_ok_bind]
  refine onHost_bind_spec (hs₀.gatherEmbedding_delivers htoken)
    (fun e s he hg heq => .inr (hstop he hg heq)) fun row hrow => ?_
  subst hrow
  refine onHost_bind_spec (hs₀.row_delivers token.toNat)
    (fun e s he hg heq => .inr (hstop he hg heq)) fun rowBuf hrowBuf => ?_
  refine onHost_bind_spec hs₀.sum_delivers
    (fun e s he hg heq => .inr (hstop he hg heq)) fun sumBuf hsumBuf => ?_
  refine onHost_bind_spec (hs₀.addToSum_delivers hle hsumBuf hrowBuf)
    (fun e s he hg heq => .inr (hstop he hg heq)) fun outSum houtSum => ?_
  have hle' : (h.committed ++ [token.toNat]).length ≤ 1024 := by
    rw [List.length_append, List.length_singleton]
    exact Nat.le_trans hroom spec.capacity_mem.2
  refine onHost_bind_spec (hs₀.projectLogits_delivers hle' houtSum)
    (fun e s he hg heq => .inr (hstop he hg heq)) fun logits hlogits => ?_
  have hlogits' : TokenHistory.logits spec (h.committed ++ [token.toNat]) = logits := by
    rw [hlogits, TokenHistory.logits, if_neg (by simp)]
  refine update_bind_spec (update_bind_spec (Fallible.Spec.pure _ ?_))
  rintro ⟨s, host⟩ ⟨rfl, hhost⟩
  refine ⟨congrArg _ hlogits', ?_, hhost⟩
  exact { hs₀ with
    pendingRow_eq := rfl
    room := fun _ => hroom
    logits_eq := hlogits'.symm }

theorem stageToken_refused {token : UInt32} {e : PortableSessionError} (hpending : h.pending = none)
    (hrefusal : refusal spec h.committed.length token.toNat = some e) :
    Performs granted spec mode h [] (.error (.error e)) (stageToken token) := by
  refine Performs.refused fun s hs => ?_
  have hnone : s.1.pendingRow.isSome = false := by rw [hs.pendingRow_eq, hpending]; rfl
  have hthis : (this : SessionM CpuPortableSession).run s = (.ok s.1, s) := rfl
  rw [stageToken, Fallible.run_bind_ok hthis, require_of _ hnone, Fallible.ofExcept_ok_bind]
  rw [refusal] at hrefusal
  by_cases htoken : token.toNat < spec.vocabSize
  · have hnext : checkedAdd s.1.kv.length 1 = some (s.1.kv.length + 1) :=
      checkedAdd_of_lt (by
        rw [hs.length_eq]
        exact Nat.lt_of_le_of_lt (Nat.succ_le_succ hs.length_le) (by decide))
    rw [if_neg (Nat.not_le.2 htoken)] at hrefusal
    obtain ⟨hfull, he⟩ := Option.ite_none_right_eq_some.1 hrefusal
    obtain rfl := Option.some.inj he
    have hcapacity : ¬ s.1.kv.length + 1 ≤ s.1.spec.capacity := by
      rw [hs.length_eq, hs.spec_eq]
      exact Nat.not_le.2 (Nat.lt_succ_of_le hfull)
    rw [hs.validateToken_eq htoken, Fallible.ofExcept_ok_bind, hnext, okOr,
      Fallible.ofExcept_ok_bind, require_of_not _ hcapacity]
    rfl
  · rw [if_pos (Nat.le_of_not_lt htoken)] at hrefusal
    obtain rfl := Option.some.inj hrefusal
    rw [validateToken, hs.spec_eq, require_of_not _ htoken]
    rfl

/-! ### The cache and its shadow -/

theorem rows_units {s : CpuPortableSession} (hs : Follows spec mode h s) :
    ∀ layer < s.kv.layers, ∀ value ∈ s.kv.layerRows layer, IsUnitWord value := by
  intro layer hlayer value hvalue
  have hinitial := (s.kv.layerPrefix_eq hlayer).symm.trans (s.kv.layerPrefix_eq_flatten layer)
  rw [hs.rows_eq] at hinitial
  have hlayer' : layer < spec.layers := hs.layers_eq ▸ hlayer
  have hrows : s.kv.layerRows layer = (h.committed.map spec.embeddingRow).flatten := by
    change _ = if layer < spec.layers then Except.ok _ else _ at hinitial
    rw [if_pos hlayer'] at hinitial
    refine (Except.ok.inj hinitial).trans ?_
    change (if layer < spec.layers then _ else _ : List (List F32)).flatten = _
    rw [if_pos hlayer']
  rw [hrows, List.mem_flatten] at hvalue
  obtain ⟨row, hrow, hvalue⟩ := hvalue
  obtain ⟨token, -, rfl⟩ := List.mem_map.1 hrow
  obtain ⟨i, -, rfl⟩ := List.mem_map.1 hvalue
  exact isUnitWord_indicator _

theorem syncFp4Shadow_performs (hsynced : h.synced = false) :
    Performs granted spec mode h [.sync] (.ok ⟨⟩) (syncFp4Shadow log2Ceil) := by
  intro s₀ hs₀
  rw [syncFp4Shadow]
  refine this_bind_spec ?_
  cases hshadow : s₀.fp4Shadow with
  | none =>
    refine Fallible.Spec.pure _ ?_
    rintro s ⟨rfl, hhost⟩
    refine ⟨rfl, ?_, hhost⟩
    exact { hs₀ with
      restores := fun _ shadow hsome => by cases hshadow.symm.trans hsome }
  | some shadow =>
    refine Fallible.Spec.of_forall ?_
    rintro s ⟨rfl, hhost⟩
    have hsync : Fallible.Spec (fun r => r.1.Fits s.1.kv ∧ (granted → r.2.Grants))
        (PortableFp4KvShadowV1.syncFromDense log2Ceil s.1.kv) _ _ :=
      PortableFp4KvShadowV1.syncFromDense_units (rows_units hs₀)
    have hzoom : Fallible.Spec _ (Fallible.zoom (fun s => (shadow, s.2))
        (fun r (s : CpuPortableSession × Allocator) => ({ s.1 with fp4Shadow := some r.1 }, r.2))
          _) _ _ := Fallible.Spec.zoom s hsync
    refine hzoom.conseq ?_ ?_ ?_
    · rintro _ rfl
      exact ⟨rfl, hs₀.fits shadow hshadow, hhost⟩
    · rintro a _ ⟨⟨shadow', host'⟩, ⟨⟨hfits, hrestores⟩, hhost'⟩, rfl⟩
      refine ⟨rfl, ?_, hhost'⟩
      exact { hs₀ with
        hasShadow_eq := by rw [← hs₀.hasShadow_eq, hshadow]; rfl
        fits := fun _ hsome => Option.some.inj hsome ▸ hfits
        restores := fun _ _ hsome => Option.some.inj hsome ▸ hrestores }
    · rintro e _ ⟨⟨shadow', host'⟩, ⟨hfits, he, hg⟩, rfl⟩
      refine .inr ⟨⟨he, hg⟩, [], List.nil_prefix, ?_⟩
      exact { hs₀ with
        hasShadow_eq := by rw [← hs₀.hasShadow_eq, hshadow]; rfl
        fits := fun _ hsome => Option.some.inj hsome ▸ hfits
        restores := fun htrue => absurd (hsynced.symm.trans htrue) Bool.false_ne_true }

theorem append_rows {s : CpuPortableSession} (hs : Follows spec mode h s)
    (hroom : h.committed.length < spec.capacity) (token : ℕ) :
    ∃ kv, (PortableKvCacheV1.append (List.replicate spec.layers (spec.embeddingRow token))).run
      s.kv =
        (.ok ⟨⟩, kv) ∧ kv.rowLists = committedRows spec mode (h.committed ++ [token]) := by
  have hrefusal : s.kv.rowLists.appendRefusal
      (List.replicate spec.layers (spec.embeddingRow token)) = none := by
    have hlayers : (List.replicate spec.layers (spec.embeddingRow token)).length =
        s.kv.rowLists.layers := by
      rw [List.length_replicate]
      exact hs.layers_eq.symm
    have hspace : ¬ s.kv.rowLists.capacity ≤ s.kv.rowLists.length := by
      rw [s.kv.length_rowLists, hs.length_eq]
      exact Nat.not_le.2 (hroom.trans_eq hs.capacity_eq.symm)
    rw [KvRowLists.appendRefusal, if_neg (not_not.2 hlayers), if_neg hspace,
      List.findSome?_eq_none_iff]
    intro row hrow
    rw [List.eq_of_mem_replicate hrow, KvRowLists.rowRefusal, if_neg, if_pos]
    · exact spec.finite_embeddingRow token
    · rw [length_embeddingRow]
      exact not_not.2 hs.rowWidth_eq.symm
  have hperform := s.kv.perform_rowLists
    (.append (List.replicate spec.layers (spec.embeddingRow token)))
  rw [KvRowLists.perform, hrefusal] at hperform
  obtain ⟨hok, hrows⟩ := Prod.mk.inj hperform
  refine ⟨_, Prod.ext hok.symm rfl, hrows.symm.trans ?_⟩
  rw [hs.rows_eq]
  refine congrArg (KvRowLists.mk _ _ _ _) (funext fun layer => ?_)
  change (if layer < spec.layers then _ else _) ++ _ = if layer < spec.layers then _ else _
  by_cases hlayer : layer < spec.layers
  · rw [if_pos hlayer, if_pos hlayer, List.map_append, List.getElem?_replicate, if_pos hlayer]
    rfl
  · rw [if_neg hlayer, if_neg hlayer, List.getElem?_replicate, if_neg hlayer]
    rfl

theorem truncate_rows {s : CpuPortableSession} (hs : Follows spec mode h s) {length : ℕ}
    (hle : length ≤ h.committed.length) :
    ∃ kv, (PortableKvCacheV1.truncate length).run s.kv = (.ok ⟨⟩, kv) ∧
      kv.rowLists = committedRows spec mode (h.committed.take length) := by
  have hperform := s.kv.perform_rowLists (.truncate length)
  rw [KvRowLists.perform, s.kv.length_rowLists, hs.length_eq, if_neg (Nat.not_lt.2 hle)] at hperform
  obtain ⟨hok, hrows⟩ := Prod.mk.inj hperform
  refine ⟨_, Prod.ext hok.symm rfl, hrows.symm.trans ?_⟩
  rw [hs.rows_eq]
  refine congrArg (KvRowLists.mk _ _ _ _) (funext fun layer => ?_)
  change List.take _ (if layer < spec.layers then _ else _) = if layer < spec.layers then _ else _
  split_ifs
  · rw [List.map_take]
  · rw [List.take_nil]

theorem reset_rows {s : CpuPortableSession} (hs : Follows spec mode h s) :
    s.kv.reset.rowLists = committedRows spec mode [] := by
  have hperform := s.kv.perform_rowLists .reset
  obtain ⟨-, hrows⟩ := Prod.mk.inj hperform
  refine hrows.symm.trans ?_
  rw [hs.rows_eq]
  refine congrArg (KvRowLists.mk _ _ _ _) (funext fun layer => ?_)
  rw [List.map_nil, ite_self]

/-- The dimensions of the cache do not change. -/
theorem Follows.fits_of_rows {s : CpuPortableSession} (hs : Follows spec mode h s)
    {kv : PortableKvCacheV1} {committed : List ℕ}
    (hkv : kv.rowLists = committedRows spec mode committed) {shadow : PortableFp4KvShadowV1}
    (hshadow : s.fp4Shadow = some shadow) : shadow.Fits kv := by
  have hfits := hs.fits shadow hshadow
  have hlayers : kv.layers = spec.layers := congrArg KvRowLists.layers hkv
  have hcapacity : kv.capacity = spec.capacity := congrArg KvRowLists.capacity hkv
  have hwidth : kv.rowWidth = spec.hiddenSize := congrArg KvRowLists.rowWidth hkv
  refine ⟨?_, ?_, ?_, hfits.admits⟩
  · rw [hlayers, ← hs.layers_eq, hfits.layers_eq]
  · rw [hcapacity, ← hs.capacity_eq, hfits.capacity_eq]
  · rw [hwidth, ← hs.rowWidth_eq, hfits.rowWidth_eq]

theorem advanceKv_performs {token : ℕ} (hpending : h.pending = some token) :
    Performs granted spec mode h [.drop, .commit token, .sync] (.ok ⟨⟩) (advanceKv log2Ceil) := by
  intro s₀ hs₀
  have hle := hs₀.length_le
  have hroom : h.committed.length < spec.capacity := hs₀.room (by rw [hpending]; rfl)
  have hrow : s₀.pendingRow = some (spec.embeddingRow token) := by
    rw [hs₀.pendingRow_eq, hpending]; rfl
  have hdropped : Follows spec mode (h.after .drop) { s₀ with pendingRow := none } :=
    { hs₀ with
      pendingRow_eq := rfl
      room := fun hsome => absurd hsome Bool.false_ne_true }
  have hstop {e : Stop PortableSessionError} {s : CpuPortableSession × Allocator}
      (he : IsBackend e) (hg : ¬ granted) (heq : s.1 = { s₀ with pendingRow := none }) :
      Interrupted granted spec mode h [.drop, .commit token, .sync] e s :=
    ⟨⟨he, hg⟩, [.drop], ⟨_, rfl⟩, heq ▸ hdropped⟩
  obtain ⟨kv, hrun, hkv⟩ := append_rows hdropped hroom token
  have happend : (PortableKvCacheV1.append
      (List.replicate s₀.spec.layers (spec.embeddingRow token))).run s₀.kv = (.ok ⟨⟩, kv) := by
    rw [hs₀.spec_eq]
    exact hrun
  have hposition : checkedAdd s₀.position 1 = some (s₀.position + 1) :=
    checkedAdd_of_lt (by
      rw [hs₀.position_eq]
      exact Nat.lt_of_le_of_lt (Nat.succ_le_succ hle) (by decide))
  have hcommitted : Follows spec mode (h.afterAll [.drop, .commit token])
      { s₀ with
        pendingRow := none
        runningSum := spec.sumOf (h.committed ++ [token])
        kv
        position := s₀.position + 1 } :=
    { hdropped with
      rows_eq := hkv
      runningSum_eq := rfl
      room := fun hsome => absurd hsome Bool.false_ne_true
      position_eq := by
        rw [hs₀.position_eq]
        change _ = (h.committed ++ [token]).length
        rw [List.length_append, List.length_singleton]
      fits := fun _ hshadow => hs₀.fits_of_rows hkv hshadow
      restores := fun hsynced => absurd hsynced Bool.false_ne_true }
  rw [advanceKv]
  refine this_bind_spec (update_bind_spec ?_)
  rw [hrow, okOr, Fallible.ofExcept_ok_bind]
  refine onHost_bind_spec hs₀.sum_delivers
    (fun e s he hg heq => .inr (hstop he hg heq)) fun sumBuf hsumBuf => ?_
  refine onHost_bind_spec (hs₀.row_delivers token)
    (fun e s he hg heq => .inr (hstop he hg heq)) fun rowBuf hrowBuf => ?_
  refine onHost_bind_spec (hs₀.addToSum_delivers hle hsumBuf hrowBuf)
    (fun e s he hg heq => .inr (hstop he hg heq)) fun outSum houtSum => ?_
  refine onHost_bind_spec (readF32_delivers houtSum (hs₀.lt_wordLimit ?_))
    (fun e s he hg heq => .inr (hstop he hg heq)) fun sum hsum => ?_
  · rw [length_sumOf]
    exact hs₀.hidden_le
  subst hsum
  refine update_bind_spec ?_
  refine step_bind_spec (run_onCache happend) ?_
  rw [hposition, okOr, Fallible.ofExcept_ok_bind]
  refine update_bind_spec ?_
  have hsync : Performs granted spec mode (h.afterAll [.drop, .commit token]) [.sync] (.ok ⟨⟩)
      (syncFp4Shadow log2Ceil) := syncFp4Shadow_performs rfl
  exact hsync.after hcommitted

/-! ### Truncation -/

/-- Adding a row to the running sum behind a prefix of it. -/
theorem run_addValues {s : CpuPortableSession} (host : Allocator) {xs row : List F32}
    (hlength : xs.length = row.length)
    (hfinite : ∀ x ∈ List.zipWith Binary.add xs row, x.isFinite = true) (done : List F32) :
    (Fallible.forEach ((xs.zip row).zipIdx done.length) addValue).run
        ({ s with runningSum := done ++ xs }, host) =
      (.ok ⟨⟩, ({ s with runningSum := done ++ List.zipWith Binary.add xs row }, host)) := by
  induction xs generalizing row done with
  | nil => rfl
  | cons x xs ih =>
    cases row with
    | nil => cases hlength
    | cons y row =>
      rw [List.zipWith_cons_cons, List.forall_mem_cons] at hfinite
      have hset : (done ++ x :: xs).set done.length (x.add y) = (done ++ [x.add y]) ++ xs := by
        simp
      have hstep : (addValue ((x, y), done.length)).run
          ({ s with runningSum := done ++ x :: xs }, host) =
          (.ok ⟨⟩, ({ s with runningSum := (done ++ [x.add y]) ++ xs }, host)) := by
        rw [addValue, require_of _ hfinite.1, Fallible.ofExcept_ok_bind, ← hset]
        rfl
      have hrest := ih (Nat.succ.inj hlength) hfinite.2 (done ++ [x.add y])
      rw [List.length_append, List.length_singleton] at hrest
      rw [List.zip_cons_cons, List.zipIdx_cons, Fallible.forEach, Fallible.foldEach,
        Fallible.run_bind_ok hstep]
      refine hrest.trans ?_
      rw [List.zipWith_cons_cons, List.append_assoc, List.singleton_append]

theorem run_accumulateRow {s : CpuPortableSession} {committed : List ℕ}
    (hle : committed.length ≤ 1024) (hrows : s.kv.rowLists = committedRows spec mode committed)
    (host : Allocator) {index : ℕ} (hindex : index < committed.length) :
    (accumulateRow index).run ({ s with runningSum := spec.sumOf (committed.take index) }, host) =
      (.ok ⟨⟩, ({ s with runningSum := spec.sumOf (committed.take (index + 1)) }, host)) := by
  have hrow : s.kv.row 0 index = .ok (spec.embeddingRow committed[index]) := by
    rw [s.kv.row_eq, hrows]
    change (if 0 < spec.layers then okOr
      (if 0 < spec.layers then committed.map spec.embeddingRow else [])[index]? _ else _) = _
    rw [if_pos spec.layers_mem.1, if_pos spec.layers_mem.1, List.getElem?_map,
      List.getElem?_eq_getElem hindex]
    rfl
  have hlt : (committed.take (index + 1)).length < 2 ^ 24 :=
    Nat.lt_of_le_of_lt ((List.length_take_le' _ _).trans hle) (by norm_num)
  have hsum : List.zipWith Binary.add (spec.sumOf (committed.take index))
      (spec.embeddingRow committed[index]) = spec.sumOf (committed.take (index + 1)) := by
    rw [sumOf_concat (Nat.lt_of_le_of_lt ((List.length_take_le' _ _).trans hle) (by norm_num)),
      List.take_append_getElem hindex]
  have hlength : (spec.sumOf (committed.take index)).length =
      (spec.embeddingRow committed[index]).length := by
    rw [length_sumOf, length_embeddingRow]
  have hfinite : ∀ x ∈ List.zipWith Binary.add (spec.sumOf (committed.take index))
      (spec.embeddingRow committed[index]), x.isFinite = true := by
    rw [hsum]
    exact finite_sumOf hlt
  have hadd := run_addValues (s := s) host hlength hfinite []
  rw [hsum] at hadd
  change ((Fallible.ofExcept (s.kv.row 0 index) : SessionM (List F32)) >>= fun row =>
    Fallible.forEach ((spec.sumOf (committed.take index)).zip row).zipIdx addValue).run _ = _
  rw [hrow, Fallible.ofExcept_ok_bind]
  exact hadd

/-- The logits are those of the committed tokens, or the session stops as it is. -/
theorem refreshLogits_bind_spec {f : PUnit → SessionM β} (hs : Follows spec mode h s₀)
    (hE : ∀ e s, IsBackend e → ¬ granted → s.1 = s₀ → E e s)
    (hf : Fallible.Spec (At granted { s₀ with logits := spec.logitsOf h.committed }) (f ⟨⟩) Q E) :
    Fallible.Spec (At granted s₀) (refreshLogitsFromSum >>= f) Q E := by
  rw [refreshLogitsFromSum]
  simp only [bind_assoc]
  refine this_bind_spec ?_
  refine onHost_bind_spec hs.sum_delivers hE fun input hinput => ?_
  refine onHost_bind_spec (hs.projectLogits_delivers hs.length_le hinput) hE
    fun logits hlogits => ?_
  subst hlogits
  exact update_bind_spec hf

theorem truncate_performs {length : ℕ} (hlength : length ≤ h.committed.length) :
    Performs granted spec mode h [.cut length, .publish, .sync] (.ok ⟨⟩)
      (truncate log2Ceil length) := by
  intro s₀ hs₀
  have hle : (h.committed.take length).length ≤ 1024 :=
    (List.length_take_le' _ _).trans hs₀.length_le
  have htake : (h.committed.take length).length = length := List.length_take_of_le hlength
  obtain ⟨kv, hrun, hkv⟩ := truncate_rows hs₀ hlength
  have hcut : Follows spec mode (h.after (.cut length))
      { s₀ with
        pendingRow := none
        kv
        position := length
        runningSum := spec.sumOf (h.committed.take length) } :=
    { hs₀ with
      rows_eq := hkv
      runningSum_eq := rfl
      pendingRow_eq := rfl
      room := fun hsome => absurd hsome Bool.false_ne_true
      position_eq := htake.symm
      fits := fun _ hshadow => hs₀.fits_of_rows hkv hshadow
      restores := fun hsynced => absurd hsynced Bool.false_ne_true }
  have hzero : (s₀.runningSum.map fun _ => (Binary.zero false : F32)) =
      spec.sumOf ((h.committed.take length).take 0) := by
    rw [List.take_zero, sumOf_nil, List.map_const', hs₀.runningSum_eq, length_sumOf]
  have hsum (host : Allocator) : (Fallible.forRange length accumulateRow).run
      ({ s₀ with
        pendingRow := none
        kv
        position := length
        runningSum := s₀.runningSum.map fun _ => .zero false }, host) =
      (.ok ⟨⟩, ({ s₀ with
        pendingRow := none
        kv
        position := length
        runningSum := spec.sumOf (h.committed.take length) }, host)) := by
    rw [hzero]
    have hloop : (Fallible.forRange length accumulateRow).run _ = _ := Fallible.run_forRange
      (fun i => ({ s₀ with
        pendingRow := none
        kv
        position := length
        runningSum := spec.sumOf ((h.committed.take length).take i) }, host))
      fun i hi => run_accumulateRow (s := { s₀ with
        pendingRow := none
        kv
        position := length }) hle hkv host (htake.symm ▸ hi)
    rw [List.take_of_length_le htake.le] at hloop
    exact hloop
  rw [truncate]
  refine this_bind_spec ?_
  rw [require_of _ (hs₀.length_eq.symm ▸ hlength), Fallible.ofExcept_ok_bind]
  refine update_bind_spec ?_
  refine step_bind_spec (run_onCache hrun) ?_
  refine update_bind_spec (update_bind_spec ?_)
  refine step_bind_spec hsum ?_
  have hsync : Performs granted spec mode (h.afterAll [.cut length, .publish]) [.sync] (.ok ⟨⟩)
      (syncFp4Shadow log2Ceil) := syncFp4Shadow_performs rfl
  by_cases hempty : length = 0
  · have hpublished : Follows spec mode (h.afterAll [.cut length, .publish])
        { s₀ with
          pendingRow := none
          kv
          position := length
          runningSum := spec.sumOf (h.committed.take length)
          logits := [] } :=
      { hcut with
        logits_eq := by
          subst hempty
          rfl }
    rw [if_pos hempty]
    exact update_bind_spec (hsync.after hpublished)
  · have hne : h.committed.take length ≠ [] :=
      List.ne_nil_of_length_pos (htake.symm ▸ Nat.pos_of_ne_zero hempty)
    have hpublished : Follows spec mode (h.afterAll [.cut length, .publish])
        { s₀ with
          pendingRow := none
          kv
          position := length
          runningSum := spec.sumOf (h.committed.take length)
          logits := spec.logitsOf (h.committed.take length) } :=
      { hcut with
        logits_eq := (if_neg hne).symm }
    rw [if_neg hempty]
    refine refreshLogits_bind_spec hcut (fun e s he hg heq => .inr ?_) (hsync.after hpublished)
    exact ⟨⟨he, hg⟩, [.cut length], ⟨_, rfl⟩, heq ▸ hcut⟩

/-! ### Reset -/

/-- An empty cache is mirrored without memory. -/
theorem exists_run_syncFp4Shadow (hs : Follows spec mode h s₀) (hempty : h.committed = [])
    (host : Allocator) : ∃ s₁, (syncFp4Shadow log2Ceil).run (s₀, host) = (.ok ⟨⟩, (s₁, host)) ∧
      Follows spec mode (h.after .sync) s₁ := by
  have hthis : (this : SessionM CpuPortableSession).run (s₀, host) = (.ok s₀, (s₀, host)) := rfl
  rw [syncFp4Shadow, Fallible.run_bind_ok hthis]
  cases hshadow : s₀.fp4Shadow with
  | none =>
    refine ⟨s₀, rfl, ?_⟩
    exact { hs with
      restores := fun _ shadow hsome => by cases hshadow.symm.trans hsome }
  | some shadow =>
    have hfits := hs.fits shadow hshadow
    have hzero : s₀.kv.length = 0 := by rw [hs.length_eq, hempty]; rfl
    have hsync : (PortableFp4KvShadowV1.syncFromDense log2Ceil s₀.kv).run (shadow, host) =
        (.ok ⟨⟩, (shadow.clear, host)) := by
      rw [PortableFp4KvShadowV1.syncFromDense,
        Fallible.run_bind_ok (Fallible.run_get (shadow, host))]
      dsimp only
      rw [require_of _ ⟨hfits.layers_eq, hfits.capacity_eq, hfits.rowWidth_eq⟩,
        Fallible.ofExcept_ok_bind, if_pos hzero]
      rfl
    refine ⟨{ s₀ with fp4Shadow := some shadow.clear }, ?_, ?_⟩
    · dsimp only
      rw [Fallible.run_zoom, hsync]
    · have hclear : shadow.clear.Fits s₀.kv :=
        ⟨hfits.layers_eq, hfits.capacity_eq, hfits.rowWidth_eq, hfits.admits⟩
      exact { hs with
        hasShadow_eq := by rw [← hs.hasShadow_eq, hshadow]; rfl
        fits := fun _ hsome => Option.some.inj hsome ▸ hclear
        restores := fun _ _ hsome => Option.some.inj hsome ▸ hclear.restores_empty rfl hzero }

/-- A reset asks the host for nothing, and leaves the session as a new one. -/
theorem exists_run_reset (hs : Follows spec mode h s₀) (host : Allocator) :
    ∃ s₁, (reset log2Ceil).run (s₀, host) = (.ok ⟨⟩, (s₁, host)) ∧
      Follows spec mode .fresh s₁ := by
  have hcleared : Follows spec mode ⟨[], none, [], false⟩
      { s₀ with
        pendingRow := none
        kv := s₀.kv.reset
        runningSum := s₀.runningSum.map fun _ => .zero false
        logits := []
        position := 0 } :=
    { hs with
      rows_eq := reset_rows hs
      runningSum_eq := by
        dsimp only
        rw [hs.runningSum_eq, List.map_const', length_sumOf, sumOf_nil]
      pendingRow_eq := rfl
      room := fun hsome => absurd hsome Bool.false_ne_true
      logits_eq := rfl
      position_eq := rfl
      fits := fun _ hshadow => hs.fits_of_rows (reset_rows hs) hshadow
      restores := fun hsynced => absurd hsynced Bool.false_ne_true }
  exact exists_run_syncFp4Shadow hcleared rfl host

theorem reset_performs :
    Performs granted spec mode h [.cut 0, .publish, .sync] (.ok ⟨⟩) (reset log2Ceil) := by
  rintro s₀ hs₀ ⟨s, host⟩ ⟨rfl, hhost⟩
  obtain ⟨s₁, hrun, hs₁⟩ : ∃ s₁, (reset log2Ceil).run (s, host) = (.ok ⟨⟩, (s₁, host)) ∧ _ :=
    exists_run_reset hs₀ host
  rw [hrun]
  exact ⟨rfl, hs₁, hhost⟩

/-! ### Prompts -/

theorem enter_performs {token : UInt32} (hpending : h.pending = none)
    (hrefusal : refusal spec h.committed.length token.toNat = none) :
    Performs granted spec mode h (enter token.toNat) (.ok ⟨⟩)
      (stageToken token >>= fun _ => advanceKv log2Ceil) :=
  (stageToken_performs hpending hrefusal).bind (advanceKv_performs rfl)

theorem forEach_performs (tokens : List UInt32) (hpending : h.pending = none) :
    Performs granted spec mode h (entering spec h.committed.length (tokens.map UInt32.toNat)).1
      ((entering spec h.committed.length (tokens.map UInt32.toNat)).2.elim (.ok ⟨⟩) raise)
      (Fallible.forEach tokens fun token => do
        let _ ← stageToken token
        advanceKv log2Ceil) := by
  induction tokens generalizing h with
  | nil =>
    intro s₀ hs₀
    refine Fallible.Spec.pure _ ?_
    rintro s ⟨rfl, hhost⟩
    exact ⟨rfl, hs₀, hhost⟩
  | cons token tokens ih =>
    rw [List.map_cons, entering, Fallible.forEach, Fallible.foldEach]
    cases hrefusal : refusal spec h.committed.length token.toNat with
    | some e => exact ((stageToken_refused hpending hrefusal).bind_error).bind_error
    | none =>
      have hrest := ih (h := h.entered token.toNat) rfl
      have hlength : (h.entered token.toNat).committed.length = h.committed.length + 1 := by
        simp [entered]
      rw [hlength] at hrest
      exact (enter_performs hpending hrefusal).bind hrest

/-- The logits of a session are handed out. -/
theorem logits_performs :
    Performs granted spec mode h [] (.ok (TokenHistory.logits spec h.published))
    (this >>= fun s => pure s.logits) := by
  intro s₀ hs₀
  refine this_bind_spec (Fallible.Spec.pure _ ?_)
  rintro s ⟨rfl, hhost⟩
  exact ⟨congrArg _ hs₀.logits_eq.symm, hs₀, hhost⟩

variable (log2Ceil) in
/-- Tokens enter the cache, and the logits are handed out. -/
theorem prompt_performs (tokens : List UInt32) (hpending : h.pending = none) :
    let p := entering spec h.committed.length (tokens.map UInt32.toNat)
    Performs granted spec mode h p.1
      (p.2.elim (.ok (TokenHistory.logits spec (h.afterAll p.1).published)) raise)
      (Fallible.forEach tokens (fun token => do
        let _ ← stageToken token
        advanceKv log2Ceil) >>= fun _ => this >>= fun s => pure s.logits) := by
  intro p
  have hloop : Performs granted spec mode h p.1 (p.2.elim (.ok ⟨⟩) raise)
      (Fallible.forEach tokens fun token => do
        let _ ← stageToken token
        advanceKv log2Ceil) := forEach_performs tokens hpending
  cases hp : p.2 with
  | none =>
    rw [hp] at hloop
    have hboth := hloop.bind (f := fun _ => this >>= fun s => pure s.logits) logits_performs
    rwa [List.append_nil] at hboth
  | some e =>
    rw [hp] at hloop
    exact hloop.bind_error

end Operations

end CpuPortableSession

end NNIS
