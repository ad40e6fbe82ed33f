import NNIS.Cpu.SessionHistory
import NNIS.Semantics.Replies

/-!
# Runs of a portable session

A session is built unless its embedding table is too large, its storage mode does not admit its
rows, or the host refuses memory. On a host that grants memory it answers every sequence of calls as
the tokens do. On any other host a call may be interrupted between two of its events; a reset asks
for no memory and brings back a new session.

## Main definitions

* `CpuPortableSession.Shows` — the public reads of a session show the tokens of a history.
* `CpuPortableSession.PromptOutcome` — what a prompt leaves.

## Main results

* `CpuPortableSession.invoke_performs` — one call.
* `CpuPortableSession.replies_of_grants` — every sequence of calls on a host that grants memory.
* `CpuPortableSession.exists_answers` — every sequence of calls on any host.
* `CpuPortableSession.withStorageMode_truncate` — a truncation is a reset and a shorter prompt.
-/

set_option autoImplicit false

namespace NNIS

namespace CpuPortableSession

open Outcome SyntheticPortableModelSpecV1 TokenHistory

/-! ### One call -/

section Calls

variable {granted : Prop} {spec : SyntheticPortableModelSpecV1} {mode : PortableKvStorageModeV1}
  {h : TokenHistory} {events : List TokenEvent} {log2Ceil : F64 → ℤ} {α β : Type}

theorem Performs.map {m : SessionM α} {result : Outcome PortableSessionError α} (f : α → β)
    (hm : Performs granted spec mode h events result m) :
    Performs granted spec mode h events (result.map f) (f <$> m) := by
  have hpure {a : α} {h' : TokenHistory} :
      Performs granted spec mode h' [] (.ok (f a)) (pure (f a) : SessionM β) := by
    intro s₀ hs₀
    refine Fallible.Spec.pure _ ?_
    rintro s ⟨rfl, hhost⟩
    exact ⟨rfl, hs₀, hhost⟩
  rw [map_eq_pure_bind]
  cases result with
  | ok a =>
    have hboth := hm.bind (f := fun a => pure (f a)) (hpure (a := a))
    rwa [List.append_nil] at hboth
  | error e => exact hm.bind_error

theorem encode_refused {tokens : List UInt32} (hne : tokens ≠ [])
    (hused : h.committed ≠ [] ∨ h.pending.isSome) :
    Performs granted spec mode h []
      (raise (.state "portable session encode requires a fresh (reset) session"))
      (encode log2Ceil tokens) := by
  refine Performs.refused fun s hs => ?_
  have hthis : (this : SessionM CpuPortableSession).run s = (.ok s.1, s) := rfl
  have hnot : ¬ (s.1.position = 0 ∧ s.1.kv.isEmpty = true ∧ s.1.pendingRow.isSome = false) := by
    rintro ⟨hposition, -, hpending⟩
    rw [hs.position_eq] at hposition
    rw [hs.pendingRow_eq, Option.isSome_map] at hpending
    rcases hused with hcommitted | hsome
    · exact hcommitted (List.length_eq_zero_iff.1 hposition)
    · exact Bool.false_ne_true (hpending.symm.trans hsome)
  rw [encode, require_of _ hne, Fallible.ofExcept_ok_bind, Fallible.run_bind_ok hthis, require,
    if_neg hnot]
  rfl

theorem encode_performs {tokens : List UInt32} (hne : tokens ≠ []) (hcommitted : h.committed = [])
    (hpending : h.pending = none) :
    Performs granted spec mode h (entering spec 0 (tokens.map UInt32.toNat)).1
      ((entering spec 0 (tokens.map UInt32.toNat)).2.elim (.ok (TokenHistory.logits spec
        (h.afterAll (entering spec 0 (tokens.map UInt32.toNat)).1).published)) raise)
      (encode log2Ceil tokens) := by
  intro s₀ hs₀
  have hzero : s₀.position = 0 := by rw [hs₀.position_eq, hcommitted]; rfl
  have hempty : s₀.kv.isEmpty = true := by
    rw [PortableKvCacheV1.isEmpty, hs₀.length_eq, hcommitted]
    rfl
  have hnone : s₀.pendingRow.isSome = false := by rw [hs₀.pendingRow_eq, hpending]; rfl
  have hlength : h.committed.length = 0 := by rw [hcommitted]; rfl
  have hprompt : Performs granted spec mode h _ _ _ := prompt_performs log2Ceil tokens hpending
  rw [hlength] at hprompt
  rw [encode, require_of _ hne, Fallible.ofExcept_ok_bind]
  refine this_bind_spec ?_
  rw [require_of _ ⟨hzero, hempty, hnone⟩, Fallible.ofExcept_ok_bind]
  exact hprompt s₀ hs₀

theorem decodeOne_refused {token : UInt32} (hpending : h.pending.isSome) :
    Performs granted spec mode h []
      (raise (.state "portable session decode_one requires no pending KV row"))
      (decodeOne log2Ceil token) := by
  refine Performs.refused fun s hs => ?_
  have hthis : (this : SessionM CpuPortableSession).run s = (.ok s.1, s) := rfl
  have hnot : ¬ s.1.pendingRow.isSome = false := by
    rw [hs.pendingRow_eq, Option.isSome_map, hpending]
    simp
  rw [decodeOne, Fallible.run_bind_ok hthis, require_of_not _ hnot]
  rfl

theorem decodeOne_performs {token : UInt32} (hpending : h.pending = none) :
    Performs granted spec mode h (entering spec h.committed.length [token.toNat]).1
      ((entering spec h.committed.length [token.toNat]).2.elim (.ok (TokenHistory.logits spec
        (h.afterAll (entering spec h.committed.length [token.toNat]).1).published)) raise)
      (decodeOne log2Ceil token) := by
  intro s₀ hs₀
  have hnone : s₀.pendingRow.isSome = false := by rw [hs₀.pendingRow_eq, hpending]; rfl
  have hprompt : Performs granted spec mode h _ _ _ := prompt_performs log2Ceil [token] hpending
  simp only [Fallible.forEach, Fallible.foldEach, bind_assoc, pure_bind] at hprompt
  rw [decodeOne]
  refine this_bind_spec ?_
  rw [require_of _ hnone, Fallible.ofExcept_ok_bind]
  exact hprompt s₀ hs₀

theorem stageToken_pending {token : UInt32} (hpending : h.pending.isSome) :
    Performs granted spec mode h []
      (raise (.state "portable session already has a pending KV row; advance_kv or truncate first"))
      (stageToken token) := by
  refine Performs.refused fun s hs => ?_
  have hthis : (this : SessionM CpuPortableSession).run s = (.ok s.1, s) := rfl
  have hnot : ¬ s.1.pendingRow.isSome = false := by
    rw [hs.pendingRow_eq, Option.isSome_map, hpending]
    simp
  rw [stageToken, Fallible.run_bind_ok hthis, require_of_not _ hnot]
  rfl

theorem advanceKv_refused (hpending : h.pending = none) :
    Performs granted spec mode h []
      (raise (.state "portable session advance_kv requires a staged token"))
        (advanceKv log2Ceil) := by
  refine Performs.refused fun s hs => ?_
  have hnone : s.1.pendingRow = none := by rw [hs.pendingRow_eq, hpending]; rfl
  have hthis : (this : SessionM CpuPortableSession).run s = (.ok s.1, s) := rfl
  have hupdate : (update fun s => { s with pendingRow := none }).run s = (.ok ⟨⟩, s) := by
    have hsame : { s.1 with pendingRow := none } = s.1 := by rw [← hnone]
    change (Except.ok PUnit.unit, ({ s.1 with pendingRow := none }, s.2)) = _
    rw [hsame]
  rw [advanceKv, Fallible.run_bind_ok hthis, Fallible.run_bind_ok hupdate, hnone]
  rfl

theorem truncate_refused {length : ℕ} (hlt : h.committed.length < length) :
    Performs granted spec mode h []
      (raise (.invalid "portable session truncate length exceeds kv_len"))
      (truncate log2Ceil length) := by
  refine Performs.refused fun s hs => ?_
  have hthis : (this : SessionM CpuPortableSession).run s = (.ok s.1, s) := rfl
  have hnot : ¬ length ≤ s.1.kv.length := by
    rw [hs.length_eq]
    exact Nat.not_le.2 hlt
  rw [truncate, Fallible.run_bind_ok hthis, require_of_not _ hnot]
  rfl

/-- A call does the events of its plan, or it is interrupted between two of them. -/
theorem invoke_performs (call : PortableSessionCallV1) :
    Performs granted spec mode h (plan spec call h).1 (TokenHistory.perform spec call h).1
      (invoke log2Ceil call) := by
  cases call with
  | stageToken token =>
    rw [TokenHistory.perform, plan, invoke]
    by_cases hpending : h.pending.isSome
    · rw [if_pos hpending]
      exact (stageToken_pending hpending).map some
    · rw [if_neg hpending]
      have hnone : h.pending = none := Option.not_isSome_iff_eq_none.1 hpending
      cases hrefusal : refusal spec h.committed.length token.toNat with
      | some e => exact (stageToken_refused hnone hrefusal).map some
      | none => exact (stageToken_performs hnone hrefusal).map some
  | advanceKv =>
    rw [TokenHistory.perform, plan, invoke]
    cases hpending : h.pending with
    | none => exact (advanceKv_refused hpending).map _
    | some token => exact (advanceKv_performs hpending).map _
  | encode tokens =>
    rw [TokenHistory.perform, plan, invoke]
    by_cases hne : tokens = []
    · subst hne
      exact (Performs.refused fun s hs => rfl).map some
    · rw [if_neg hne]
      by_cases hused : h.committed ≠ [] ∨ h.pending.isSome
      · rw [if_pos hused]
        exact (encode_refused hne hused).map some
      · rw [if_neg hused]
        obtain ⟨hcommitted, hpending⟩ := not_or.1 hused
        have hencode : Performs granted spec mode h _ _ (encode log2Ceil tokens) :=
          encode_performs hne (not_not.1 hcommitted) (Option.not_isSome_iff_eq_none.1 hpending)
        cases hresult : (entering spec 0 (tokens.map UInt32.toNat)).2 with
        | some e =>
          rw [hresult] at hencode
          exact hencode.map some
        | none =>
          rw [hresult] at hencode
          exact hencode.map some
  | decodeOne token =>
    rw [TokenHistory.perform, plan, invoke]
    by_cases hpending : h.pending.isSome
    · rw [if_pos hpending]
      exact (decodeOne_refused hpending).map some
    · rw [if_neg hpending]
      have hdecode : Performs granted spec mode h _ _ (decodeOne log2Ceil token) :=
        decodeOne_performs (Option.not_isSome_iff_eq_none.1 hpending)
      cases hresult : (entering spec h.committed.length [token.toNat]).2 with
      | some e =>
        rw [hresult] at hdecode
        exact hdecode.map some
      | none =>
        rw [hresult] at hdecode
        exact hdecode.map some
  | truncate length =>
    rw [TokenHistory.perform, plan, invoke]
    by_cases hlt : h.committed.length < length
    · rw [if_pos hlt]
      exact (truncate_refused hlt).map _
    · rw [if_neg hlt]
      exact (truncate_performs (Nat.le_of_not_lt hlt)).map _
  | reset => exact reset_performs.map _

end Calls

/-! ### Construction -/

section Construction

variable {granted : Prop} {spec : SyntheticPortableModelSpecV1}

/-- A buffer that is too large for the device is refused. -/
theorem tensor_of_lt (device : CpuDevice) (values : List F32)
    (hlt : device.maxBufferBytes < values.length * 4) (host : Allocator) :
    ∃ e, e ≠ Stop.panic ∧ (tensor device values).run host = (.error e, host) := by
  have hpos : 0 < values.length * 4 := Nat.zero_lt_of_lt hlt
  have hne : values ≠ [] := List.ne_nil_of_length_pos (by omega)
  have hlength : (F32.bytes values).length = values.length * 4 := F32.length_bytes values
  have hdesc : BufferDesc.new (F32.bytes values).length tensorUsages .host =
      .ok ⟨(F32.bytes values).length, tensorUsages, .host⟩ :=
    BufferDesc.new_of_ne .host (by omega) rfl
  rw [tensor, require_of _ hne, Fallible.ofExcept_ok_bind]
  dsimp only
  rw [hdesc, Fallible.ofExcept_ok_bind, CpuDevice.createBuffer, hdesc, Fallible.ofExcept_ok_bind,
    require_of_not _ (by dsimp only; omega)]
  refine ⟨_, ?_, rfl⟩
  rw [mapPortable]
  simp

/-- The embedding table exceeds the device, or the rows are not admitted by the storage mode. -/
def Unbuildable (spec : SyntheticPortableModelSpecV1) (mode : PortableKvStorageModeV1) : Prop :=
  2 ^ 20 < spec.vocabSize * spec.hiddenSize * 4 ∨
    ∃ e, mode.validateForRowWidth spec.hiddenSize = .error e

theorem layout_safe (rows : UInt64) (rowWidth groupSize : UInt32) (encoding : Fp4ScaleEncodingV1) :
    Safe (Fp4E2M1KvLayoutV1.new rows rowWidth groupSize encoding) := by
  have hstorage (shape : Fp4Shape) : Safe shape.storage := by
    rw [Fp4Shape.storage]
    exact (Safe.okOr _ _).bind fun _ _ => (Safe.okOr _ _).bind fun _ _ => (Safe.okOr _ _).bind
      fun _ _ => (Safe.okOr _ _).bind fun _ _ => (Safe.okOr _ _).bind fun _ _ =>
        (Safe.okOr _ _).bind fun _ _ => Safe.pure _
  rw [Fp4E2M1KvLayoutV1.new]
  dsimp only
  split_ifs
  · exact Safe.raise _
  · exact Safe.raise _
  · exact Safe.raise _
  · split
    · next e he =>
      intro h
      exact hstorage _ (he.trans (congrArg Except.error (Except.error.inj h)))
    · exact Safe.ok _

/-- A storage mode is admitted as it is, or it is refused. -/
theorem validateForRowWidth_meets (mode : PortableKvStorageModeV1) (rowWidth : ℕ) :
    Except.Meets (mode.validateForRowWidth rowWidth) (fun mode' => mode' = mode)
      fun e => e ≠ .panic := by
  have hsafe {α : Type} {x : Outcome PortableSessionError α} (h : Safe x) :
      Except.Meets x (fun _ => True) fun e => e ≠ .panic := by
    cases x with
    | error e => exact fun heq => h (congrArg Except.error heq)
    | ok a => trivial
  cases mode with
  | denseF32 => exact rfl
  | fp4E2M1 groupSize encoding =>
    exact Except.Meets.bind (hsafe (Safe.require _ _)) fun _ _ =>
      Except.Meets.bind (hsafe (Safe.wrap _ (layout_safe _ _ _ _))) fun _ _ => rfl

/-- A cache is built, or its storage mode is not admitted or the host refuses memory. -/
theorem kv_spec (mode : PortableKvStorageModeV1) :
    Fallible.Spec (fun host => granted → host.Grants)
      (PortableKvCacheV1.withStorageMode spec.layers spec.capacity spec.hiddenSize mode)
      (fun kv host => kv.rowLists = committedRows spec mode [] ∧
        mode.validateForRowWidth spec.hiddenSize = .ok mode ∧ (granted → host.Grants))
      fun e _ => e ≠ .panic ∧ (granted → Unbuildable spec mode) := by
  have h₁ := spec.layers_mem
  have h₂ := spec.capacity_mem
  have h₃ := spec.hiddenSize_mem
  intro host hhost
  rw [PortableKvCacheV1.withStorageMode, dif_neg (by omega), dif_neg (by omega)]
  have hmeets := validateForRowWidth_meets mode spec.hiddenSize
  cases hmode : mode.validateForRowWidth spec.hiddenSize with
  | error e => exact ⟨hmeets.of_error hmode, fun _ => .inr ⟨e, hmode⟩⟩
  | ok mode' =>
    obtain rfl := hmeets.of_ok hmode
    rw [Fallible.ofExcept_ok_bind]
    have hreserved : (tryReserveExact (spec.layers * spec.capacity * spec.hiddenSize) :
        SessionHostM _).run host =
          (.ok (host.answer 0 (spec.layers * spec.capacity * spec.hiddenSize)), host.rest) := rfl
    rw [Fallible.run_bind_ok hreserved]
    cases hanswer : host.answer 0 (spec.layers * spec.capacity * spec.hiddenSize) with
    | error text =>
      refine ⟨by simp, fun hg => ?_⟩
      obtain ⟨capacity, hcapacity⟩ := hhost hg 0 (spec.layers * spec.capacity * spec.hiddenSize)
      cases hanswer.symm.trans hcapacity
    | ok capacity =>
      refine ⟨?_, rfl, fun hg => (hhost hg).rest⟩
      refine congrArg (KvRowLists.mk _ _ _ _) (funext fun layer => ?_)
      rfl

variable (granted) in
/-- A session is built, or it cannot be built or the host refuses memory. -/
theorem withStorageMode_spec (spec : SyntheticPortableModelSpecV1)
    (mode : PortableKvStorageModeV1) :
    Fallible.Spec (fun host => granted → host.Grants) (withStorageMode spec mode)
      (fun s host => Follows spec mode .fresh s ∧ (granted → host.Grants))
      fun e _ => e ≠ .panic ∧ (granted → Unbuildable spec mode) := by
  have hkernels : 0 < max spec.hiddenSize spec.vocabSize * 4 ∧
      max spec.hiddenSize spec.vocabSize * 4 ≤ isizeMax := by
    have h₁ := spec.hiddenSize_mem
    have h₂ := spec.vocabSize_mem
    have h₃ : maxSyntheticSessionDim * 4 ≤ isizeMax := by decide
    omega
  have hlimit : ¬ (2 ^ 20 = 0 ∨ isizeMax < 2 ^ 20) := by decide
  have hbackend {e : Stop PortableSessionError} (h : IsBackend e) : e ≠ .panic := by
    obtain ⟨message, rfl⟩ := h
    simp
  have hdevice : portable (.ofExcept (CpuDevice.withMaxBufferBytes (2 ^ 20))) =
      .ofExcept (.ok ⟨2 ^ 20, by decide, by decide⟩) := by
    rw [CpuDevice.withMaxBufferBytes, dif_neg hlimit]
    rfl
  have hkernelsNew : portable (.ofExcept (CpuF32KernelsV1.new
      (max spec.hiddenSize spec.vocabSize * 4))) = .ofExcept (.ok ⟨_, hkernels.1, hkernels.2⟩) := by
    rw [CpuF32KernelsV1.new, dif_pos hkernels]
    rfl
  have hpolicy : portableSessionPolicy = "finite-f32-le-ordered-fma-v1" := rfl
  rw [withStorageMode, require_of _ hpolicy, Fallible.ofExcept_ok_bind, hdevice,
    Fallible.ofExcept_ok_bind, hkernelsNew, Fallible.ofExcept_ok_bind]
  by_cases hfit : spec.vocabSize * spec.hiddenSize * 4 ≤ 2 ^ 20
  · refine Fallible.Spec.bind ((oneHotEmbedding_delivers hfit).conseq (fun _ hs => hs)
      (fun _ _ hs => hs) fun e _ he => ⟨hbackend he.1, fun hg => absurd hg he.2⟩)
      fun embedding => Fallible.Spec.of_forall ?_
    rintro host₁ ⟨hembedding, hhost₁⟩
    refine Fallible.Spec.bind ((identityLmHead_delivers hfit).conseq (fun _ hs => hs ▸ hhost₁)
      (fun _ _ hs => hs) fun e _ he => ⟨hbackend he.1, fun hg => absurd hg he.2⟩)
      fun lmHead => Fallible.Spec.of_forall ?_
    rintro host₂ ⟨hlmHead, hhost₂⟩
    refine Fallible.Spec.bind ((kv_spec mode).conseq (fun _ hs => hs ▸ hhost₂)
      (fun _ _ hs => hs) fun _ _ he => he) fun kv => Fallible.Spec.of_forall ?_
    rintro host₃ ⟨hkv, hmode, hhost₃⟩
    have hwidth : kv.rowWidth = spec.hiddenSize := congrArg KvRowLists.rowWidth hkv
    obtain ⟨fp4Shadow, hshadow, hsome⟩ : ∃ fp4Shadow,
        PortableFp4KvShadowV1.new kv mode = .ok fp4Shadow ∧ fp4Shadow.isSome = mode.isFp4 := by
      cases mode with
      | denseF32 => exact ⟨none, rfl, rfl⟩
      | fp4E2M1 groupSize encoding =>
        rw [PortableFp4KvShadowV1.new, hwidth, hmode]
        exact ⟨_, rfl, rfl⟩
    rw [hshadow, Fallible.ofExcept_ok_bind]
    refine Fallible.Spec.pure _ ?_
    rintro host rfl
    refine ⟨?_, hhost₃⟩
    have hempty : kv.length = 0 := by
      rw [← kv.length_rowLists, hkv]
      change (if 0 < spec.layers then _ else _ : List (List F32)).length = 0
      rw [if_pos spec.layers_mem.1]
      rfl
    exact
      { spec_eq := rfl
        device_eq := rfl
        kernels_eq := rfl
        embedding := hembedding
        lmHead := hlmHead
        table_le := hfit
        rows_eq := hkv
        runningSum_eq := sumOf_nil.symm
        pendingRow_eq := rfl
        room := fun hsome => absurd hsome Bool.false_ne_true
        logits_eq := rfl
        position_eq := rfl
        hasShadow_eq := hsome
        fits := fun shadow hsome => by
          obtain rfl : fp4Shadow = some shadow := hsome
          exact PortableFp4KvShadowV1.fits_of_new hshadow
        restores := fun _ shadow hsome => by
          obtain rfl : fp4Shadow = some shadow := hsome
          exact (PortableFp4KvShadowV1.fits_of_new hshadow).restores_empty
            (PortableFp4KvShadowV1.length_of_new hshadow) hempty }
  · intro host _
    rw [oneHotEmbedding_eq]
    obtain ⟨e, he, hrun⟩ := tensor_of_lt ⟨2 ^ 20, by decide, by decide⟩ spec.embeddingTable
      (by simpa using hfit) host
    rw [Fallible.run_bind_error hrun]
    exact ⟨he, fun _ => .inl (Nat.lt_of_not_le hfit)⟩

end Construction

/-! ### Public reads -/

/-- The public reads of a session show the tokens of a history. -/
structure Shows (spec : SyntheticPortableModelSpecV1) (mode : PortableKvStorageModeV1)
    (h : TokenHistory) (s : CpuPortableSession) : Prop where
  position_eq : s.position = h.committed.length
  kvLen_eq : s.kvLen = h.committed.length
  hasPendingKv_eq : s.hasPendingKv = h.pending.isSome
  logits_eq : s.logits = TokenHistory.logits spec h.published
  rows_eq : ∀ layer < spec.layers,
    s.kv.layerPrefix layer = .ok (h.committed.flatMap spec.embeddingRow)
  hasShadow_eq : s.fp4Shadow.isSome = mode.isFp4
  shadow_eq : h.synced = true → ∀ layer < spec.layers, ∀ host : Allocator, host.Grants →
    ((s.fp4ShadowDecodeLayer layer).run host).1 =
      .ok (s.fp4Shadow.map fun _ => h.committed.flatMap spec.embeddingRow)

section Runs

variable {spec : SyntheticPortableModelSpecV1} {mode : PortableKvStorageModeV1} {h : TokenHistory}
  {s : CpuPortableSession × Allocator}

theorem Follows.shows {s : CpuPortableSession} (hs : Follows spec mode h s) :
    Shows spec mode h s := by
  have hlayers : s.kv.layers = spec.layers := hs.layers_eq
  have hinitial (layer : ℕ) (hlayer : layer < spec.layers) :
      s.kv.layerPrefix layer = .ok (h.committed.flatMap spec.embeddingRow) := by
    rw [s.kv.layerPrefix_eq_flatten, hs.rows_eq]
    change (if layer < spec.layers then Except.ok (if layer < spec.layers then _ else _ :
      List (List F32)).flatten else _) = _
    rw [if_pos hlayer, if_pos hlayer, List.flatMap_def]
  refine ⟨hs.position_eq, hs.length_eq, ?_, hs.logits_eq, hinitial, hs.hasShadow_eq,
    fun hsynced layer hlayer host hhost => ?_⟩
  · rw [hasPendingKv, hs.pendingRow_eq, Option.isSome_map]
  · rw [fp4ShadowDecodeLayer]
    cases hshadow : s.fp4Shadow with
    | none => rfl
    | some shadow =>
      have hlayer' : layer < s.kv.layers := hlayer.trans_eq hlayers.symm
      have hdecode := (hs.restores hsynced shadow hshadow).2 layer hlayer' host hhost
      have hrows : s.kv.layerRows layer = h.committed.flatMap spec.embeddingRow :=
        Except.ok.inj ((s.kv.layerPrefix_eq hlayer').symm.trans (hinitial layer hlayer))
      rcases hrun : (shadow.decodeLayer layer).run host with ⟨result, host'⟩
      rw [hrun] at hdecode
      dsimp only at hdecode ⊢
      rw [map_eq_pure_bind, Fallible.run_bind, hrun, hdecode, hrows]
      rfl

/-! ### Every sequence of calls -/

variable (log2Ceil : F64 → ℤ)

/-- On a host that grants memory a call is answered as by the tokens. -/
theorem perform_of_grants (call : PortableSessionCallV1) (hs : Follows spec mode h s.1)
    (hhost : s.2.Grants) :
    (perform log2Ceil call s).1 = (TokenHistory.perform spec call h).1 ∧
      Follows spec mode (TokenHistory.perform spec call h).2 (perform log2Ceil call s).2.1 ∧
        (perform log2Ceil call s).2.2.Grants := by
  have hperforms : Performs True spec mode h (plan spec call h).1
    (TokenHistory.perform spec call h).1
      (invoke log2Ceil call) := invoke_performs call
  have hpost := hperforms s.1 hs s ⟨rfl, fun _ => hhost⟩
  rw [perform]
  rcases hrun : (invoke log2Ceil call).run s with ⟨e | a, s'⟩
  · rw [hrun] at hpost
    rcases hpost with ⟨hresult, hs', hhost'⟩ | ⟨⟨-, hg⟩, -⟩
    · exact ⟨hresult.symm, hs', hhost' trivial⟩
    · exact absurd trivial hg
  · rw [hrun] at hpost
    exact ⟨hpost.1.symm, hpost.2.1, hpost.2.2 trivial⟩

/-- On any host a call is answered as by the tokens, or it is interrupted. -/
theorem exists_step (call : PortableSessionCallV1) (hs : Follows spec mode h s.1) :
    ∃ h', Step spec call h (perform log2Ceil call s).1 h' ∧
      Follows spec mode h' (perform log2Ceil call s).2.1 := by
  have hperforms : Performs False spec mode h (plan spec call h).1
      (TokenHistory.perform spec call h).1 (invoke log2Ceil call) := invoke_performs call
  have hpost := hperforms s.1 hs s ⟨rfl, False.elim⟩
  rw [perform]
  rcases hrun : (invoke log2Ceil call).run s with ⟨e | a, s'⟩
  · rw [hrun] at hpost
    rcases hpost with ⟨hresult, hs', -⟩ | ⟨⟨⟨message, rfl⟩, -⟩, done, hdone, hs'⟩
    · exact ⟨_, hresult ▸ .performed, hs'⟩
    · exact ⟨_, .interrupted message done hdone, hs'⟩
  · rw [hrun] at hpost
    exact ⟨_, hpost.1 ▸ .performed, hpost.2.1⟩

theorem replies_of_grants (calls : List PortableSessionCallV1) (hs : Follows spec mode h s.1)
    (hhost : s.2.Grants) :
    (replies (perform log2Ceil) calls s).1 = (replies (TokenHistory.perform spec) calls h).1 ∧
      Follows spec mode (replies (TokenHistory.perform spec) calls h).2
        (replies (perform log2Ceil) calls s).2.1 ∧
          (replies (perform log2Ceil) calls s).2.2.Grants := by
  induction calls generalizing h s with
  | nil => exact ⟨rfl, hs, hhost⟩
  | cons call calls ih =>
    obtain ⟨hreply, hs', hhost'⟩ := perform_of_grants log2Ceil call hs hhost
    obtain ⟨hreplies, hlast⟩ := ih hs' hhost'
    rw [replies_cons, replies_cons]
    exact ⟨by rw [hreply, hreplies], hlast⟩

theorem exists_answers (calls : List PortableSessionCallV1) (hs : Follows spec mode h s.1) :
    ∃ h', Answers spec calls h (replies (perform log2Ceil) calls s).1 h' ∧
      Follows spec mode h' (replies (perform log2Ceil) calls s).2.1 := by
  induction calls generalizing h s with
  | nil => exact ⟨h, .nil h, hs⟩
  | cons call calls ih =>
    obtain ⟨h', hstep, hs'⟩ := exists_step log2Ceil call hs
    obtain ⟨h'', hrest, hlast⟩ := ih hs'
    rw [replies_cons]
    exact ⟨h'', .cons hstep hrest, hlast⟩

/-- A reset asks for no memory and leaves the session as a new one. -/
theorem exists_perform_reset (hs : Follows spec mode h s.1) :
    ∃ s₁, perform log2Ceil .reset s = (.ok none, (s₁, s.2)) ∧ Follows spec mode .fresh s₁ := by
  obtain ⟨s₁, hrun, hs₁⟩ : ∃ s₁, (reset log2Ceil).run (s.1, s.2) = (.ok ⟨⟩, (s₁, s.2)) ∧ _ :=
    exists_run_reset hs s.2
  refine ⟨s₁, ?_, hs₁⟩
  rw [perform, invoke, map_eq_pure_bind, Fallible.run_bind_ok hrun]
  rfl

/-- A prompt on a new session: all of its tokens are committed, or a beginning of them is. -/
inductive PromptOutcome (spec : SyntheticPortableModelSpecV1) (mode : PortableKvStorageModeV1)
    (tokens : List ℕ) (s : CpuPortableSession) : PortableSessionReplyV1 → Prop
  | accepted (hshows : Shows spec mode ⟨tokens, none, tokens, true⟩ s) :
    PromptOutcome spec mode tokens s (.ok (some (spec.logitsOf tokens)))
  | refused (k token : ℕ) (error : PortableSessionError) (hget : tokens[k]? = some token)
    (hrefusal : refusal spec k token = some error)
    (haccepted : ∀ i < k, ∀ t, tokens[i]? = some t → refusal spec i t = none)
    (hshows : Shows spec mode ⟨tokens.take k, none, tokens.take k, true⟩ s) :
    PromptOutcome spec mode tokens s (.error (.error error))
  | interrupted (message : String) (k : ℕ) (hk : k ≤ tokens.length) (h : TokenHistory)
    (hcommitted : h.committed = tokens.take k)
    (hpending : h.pending = none ∨ h.pending = tokens[k]?) (hshows : Shows spec mode h s) :
    PromptOutcome spec mode tokens s (.error (.error (.backend message)))

theorem plan_encode_fresh {tokens : List UInt32} (hne : tokens ≠ []) :
    plan spec (.encode tokens) .fresh = entering spec 0 (tokens.map UInt32.toNat) := by
  rw [plan, if_neg hne, if_neg (by simp [fresh])]

theorem promptOutcome_of_step {tokens : List UInt32} (hne : tokens ≠ []) {h' : TokenHistory}
    {reply : PortableSessionReplyV1} {s : CpuPortableSession}
    (hstep : Step spec (.encode tokens) .fresh reply h') (hs : Follows spec mode h' s) :
    PromptOutcome spec mode (tokens.map UInt32.toNat) s reply := by
  have hmap : tokens.map UInt32.toNat ≠ [] := by simpa using hne
  cases hstep with
  | performed =>
    obtain ⟨k, hk, haccepted, hresult, hmore, hafter⟩ :=
      afterAll_entering spec (tokens.map UInt32.toNat) .fresh rfl
    have hzero : fresh.committed.length = 0 := rfl
    have hlast : (if k = 0 then fresh
      else ⟨fresh.committed ++ (tokens.map UInt32.toNat).take k, none,
        fresh.committed ++ (tokens.map UInt32.toNat).take k, true⟩) =
        (⟨(tokens.map UInt32.toNat).take k, none, (tokens.map UInt32.toNat).take k, true⟩ :
          TokenHistory) := by
      split_ifs with h
      · rw [h]
        rfl
      · rfl
    rw [hzero] at haccepted hresult hmore hafter
    rw [hlast] at hafter
    rw [TokenHistory.perform, plan_encode_fresh hne] at hs ⊢
    dsimp only at hs ⊢
    rw [hafter] at hs ⊢
    rcases Nat.lt_or_eq_of_le hk with hlt | rfl
    · rw [List.getElem?_eq_getElem hlt, Option.bind_some, Nat.zero_add] at hresult
      cases hrefusal : refusal spec k (tokens.map UInt32.toNat)[k] with
      | none => exact absurd (hresult.trans hrefusal) (hmore hlt)
      | some error =>
        rw [hresult, hrefusal]
        refine .refused k _ error (List.getElem?_eq_getElem hlt) hrefusal
          (fun i hi t ht => ?_) hs.shows
        have := haccepted i hi t ht
        rwa [Nat.zero_add] at this
    · rw [List.getElem?_eq_none (Nat.le_refl _), Option.bind_none] at hresult
      rw [hresult, List.take_length]
      rw [List.take_length] at hs
      have hanswer : answer spec (.encode tokens) ⟨tokens.map UInt32.toNat, none,
          tokens.map UInt32.toNat, true⟩ = some (spec.logitsOf (tokens.map UInt32.toNat)) := by
        rw [answer, TokenHistory.logits, if_neg hmap]
      rw [hanswer]
      exact .accepted hs.shows
  | interrupted message done hdone =>
    rw [plan_encode_fresh hne] at hdone
    obtain ⟨k, hk, hcommitted, hpending⟩ := afterAll_of_prefix _ .fresh rfl hdone
    exact .interrupted message k hk _ hcommitted hpending hs.shows

end Runs

/-! ### Sessions that are built -/

variable (log2Ceil : F64 → ℤ) (spec : SyntheticPortableModelSpecV1) (mode : PortableKvStorageModeV1)

/-- On a host that grants memory a session answers every sequence of calls as its tokens do, and its
reads show them; its shadow is decoded to the committed rows. -/
theorem withStorageMode_grants :
    Fallible.Spec Allocator.Grants (withStorageMode spec mode)
      (fun s host => ∀ calls : List PortableSessionCallV1,
        let run := replies (perform log2Ceil) calls (s, host)
        let tokens := replies (TokenHistory.perform spec) calls .fresh
        run.1 = tokens.1 ∧ tokens.2.synced = true ∧ Shows spec mode tokens.2 run.2.1)
      fun e _ => e ≠ .panic ∧ Unbuildable spec mode := by
  refine (withStorageMode_spec True spec mode).conseq (fun _ hhost _ => hhost)
    (fun s host hs calls => ?_) fun _ _ he => ⟨he.1, he.2 trivial⟩
  obtain ⟨hreplies, hlast, -⟩ := replies_of_grants log2Ceil (s := (s, host)) calls
    hs.1 (hs.2 trivial)
  have hsynced := replies_invariant (I := fun h => h.synced = true)
    (fun call h hsynced => synced_perform spec call hsynced) calls (s := fresh) rfl
  exact ⟨hreplies, hsynced, hlast.shows⟩

/-- On any host each call is answered as by the tokens or interrupted between two of its events, and
the reads show the tokens; no call panics. -/
theorem withStorageMode_answers :
    Fallible.Spec (fun _ => True) (withStorageMode spec mode)
      (fun s host => ∀ calls : List PortableSessionCallV1,
        let run := replies (perform log2Ceil) calls (s, host)
        ∃ h, Answers spec calls .fresh run.1 h ∧ Shows spec mode h run.2.1 ∧
          ∀ reply ∈ run.1, reply ≠ .error .panic)
      fun e _ => e ≠ .panic := by
  refine (withStorageMode_spec False spec mode).conseq (fun _ _ => False.elim)
    (fun s host hs calls => ?_) fun _ _ he => he.1
  obtain ⟨h, hanswers, hlast⟩ := exists_answers log2Ceil (s := (s, host)) calls hs.1
  exact ⟨h, hanswers, hlast.shows, hanswers.safe⟩

/-- On any host and after any calls a reset succeeds, asks for no memory and leaves a session that
goes on as a new one. -/
theorem withStorageMode_reset :
    Fallible.Spec (fun _ => True) (withStorageMode spec mode)
      (fun s host => ∀ calls more : List PortableSessionCallV1,
        let run := replies (perform log2Ceil) calls (s, host)
        let start := perform log2Ceil .reset run.2
        start.1 = .ok none ∧ start.2.2 = run.2.2 ∧ Shows spec mode .fresh start.2.1 ∧
          ∃ h, Answers spec more .fresh (replies (perform log2Ceil) more start.2).1 h)
      fun e _ => e ≠ .panic := by
  refine (withStorageMode_spec False spec mode).conseq (fun _ _ => False.elim)
    (fun s host hs calls more => ?_) fun _ _ he => he.1
  obtain ⟨h, -, hlast⟩ := exists_answers log2Ceil (s := (s, host)) calls hs.1
  obtain ⟨s₁, hreset, hs₁⟩ := exists_perform_reset log2Ceil hlast
  dsimp only
  rw [hreset]
  obtain ⟨h', hanswers, -⟩ := exists_answers log2Ceil
    (s := (s₁, (replies (perform log2Ceil) calls (s, host)).2.2)) more hs₁
  exact ⟨rfl, rfl, hs₁.shows, h', hanswers⟩

/-- On any host and after any calls a prompt on a session that has been reset is committed whole, or
the tokens before a refused one are, or the host has refused memory and a beginning is. -/
theorem withStorageMode_encode :
    Fallible.Spec (fun _ => True) (withStorageMode spec mode)
      (fun s host => ∀ (calls : List PortableSessionCallV1) (tokens : List UInt32), tokens ≠ [] →
        let start := perform log2Ceil .reset (replies (perform log2Ceil) calls (s, host)).2
        let result := perform log2Ceil (.encode tokens) start.2
        PromptOutcome spec mode (tokens.map UInt32.toNat) result.2.1 result.1)
      fun e _ => e ≠ .panic := by
  refine (withStorageMode_spec False spec mode).conseq (fun _ _ => False.elim)
    (fun s host hs calls tokens hne => ?_) fun _ _ he => he.1
  obtain ⟨h, -, hlast⟩ := exists_answers log2Ceil (s := (s, host)) calls hs.1
  obtain ⟨s₁, hreset, hs₁⟩ := exists_perform_reset log2Ceil hlast
  dsimp only
  rw [hreset]
  obtain ⟨h', hstep, hs'⟩ := exists_step log2Ceil
    (s := (s₁, (replies (perform log2Ceil) calls (s, host)).2.2)) (.encode tokens) hs₁
  exact promptOutcome_of_step hne hstep hs'

/-- On a host that grants memory a truncation to a positive length is accepted and leaves a session
that goes on as one that is reset and accepts the first committed tokens again. -/
theorem withStorageMode_truncate :
    Fallible.Spec Allocator.Grants (withStorageMode spec mode)
      (fun s host => ∀ (calls : List PortableSessionCallV1) (length : ℕ),
        let run := replies (perform log2Ceil) calls (s, host)
        let kept := (replies (TokenHistory.perform spec) calls .fresh).2.committed.take length
        0 < length → length ≤ run.2.1.kvLen →
          kept.length = length ∧ ∃ tokens : List UInt32, tokens.map UInt32.toNat = kept ∧
            ∀ more : List PortableSessionCallV1,
              let cut := replies (perform log2Ceil) (.truncate length :: more) run.2
              let again := replies (perform log2Ceil) (.reset :: .encode tokens :: more) run.2
              let after := replies (TokenHistory.perform spec) more ⟨kept, none, kept, true⟩
              cut.1 = .ok none :: after.1 ∧
                again.1 = .ok none :: .ok (some (spec.logitsOf kept)) :: after.1 ∧
                Shows spec mode after.2 cut.2.1 ∧ Shows spec mode after.2 again.2.1)
      fun e _ => e ≠ .panic := by
  refine (withStorageMode_spec True spec mode).conseq (fun _ hhost _ => hhost)
    (fun s host hs calls length hpos hle => ?_) fun _ _ he => he.1
  obtain ⟨-, hlast, hhost⟩ := replies_of_grants log2Ceil (s := (s, host)) calls hs.1
    (hs.2 trivial)
  set h := (replies (TokenHistory.perform spec) calls .fresh).2
  have hvalid : Valid spec h := replies_invariant (I := Valid spec)
    (fun call _ hvalid => hvalid.perform call) calls valid_fresh
  have hcommitted : length ≤ h.committed.length := hle.trans_eq hlast.length_eq
  have hlength : (h.committed.take length).length = length := List.length_take_of_le hcommitted
  have hkept : h.committed.take length ≠ [] := List.ne_nil_of_length_pos (hlength.symm ▸ hpos)
  obtain ⟨tokens, htokens⟩ := exists_tokens (hvalid.take length)
  refine ⟨hlength, tokens, htokens, fun more => ?_⟩
  have hcut := @perform_truncate spec _ _ hcommitted
  have hagain := @perform_encode spec tokens (htokens.symm ▸ hkept)
    (htokens.symm ▸ hvalid.take length)
  have hreset : TokenHistory.perform spec .reset h = (.ok none, .fresh) := rfl
  rw [htokens] at hagain
  obtain ⟨hcutReplies, hcutLast, -⟩ := replies_of_grants log2Ceil
    (.truncate length :: more) hlast hhost
  obtain ⟨hagainReplies, hagainLast, -⟩ := replies_of_grants log2Ceil
    (.reset :: .encode tokens :: more) hlast hhost
  rw [replies_cons (TokenHistory.perform spec), hcut] at hcutReplies hcutLast
  rw [replies_cons (TokenHistory.perform spec), hreset, replies_cons (TokenHistory.perform spec),
    hagain] at hagainReplies hagainLast
  exact ⟨hcutReplies, hagainReplies, hcutLast.shows, hagainLast.shows⟩

end CpuPortableSession

end NNIS
