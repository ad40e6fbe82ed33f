import NNIS.Wgpu.Replay

/-!
# WGPU replay agrees with the CPU reference

A payload is refused by the device-resident source for the reason of the reference, and where the
reference accepts it, it is accepted if the device admits a buffer of its size. An accepted source
answers every request as the reference does. The host and the device may refuse any operation, and
then that is the error.

## Main definitions

* `CpuReplayError.toWgpu` — the same error.
* `WgpuBuffer.words` — the words of a device buffer.
* `WgpuReplaySourceV1.Mirrors` — the source holds the payload of a reference source.

## Main results

* `WgpuReplaySourceV1.replayWindow_agrees`, `WgpuReplaySourceV1.replayRecentWindow_agrees`.
* `WgpuReplaySourceV1.fromHost_delivers` — the upload of a payload.
* `replay_agrees` — exact replay, on both backends.
-/

set_option autoImplicit false

namespace NNIS

open Outcome WgpuReplay

/-- The same error of a device-resident source. -/
def CpuReplayError.toWgpu : CpuReplayError → WgpuReplayError
  | identity error => .identity error
  | zeroRowWidth => .zeroRowWidth
  | payloadLengthMismatch expected actual => .payloadLengthMismatch expected actual
  | nonFiniteValue index => .nonFiniteValue index
  | hostIndexOverflow => .hostIndexOverflow

/-- The words of a device buffer. -/
def WgpuBuffer.words (self : WgpuBuffer) : List F32 := F32.words self.logical.bytes

/-! ### Upload -/

/-- The payload is checked as by the reference. -/
theorem checkHostPayload_eq (identity : ReplaySourceIdentityV1) (rowWidth : ℕ) (rows : List F32) :
    checkHostPayload identity rowWidth rows =
      wrap CpuReplayError.toWgpu (validateReplayPayload identity rowWidth rows) >>= fun _ =>
        pure rows.length := by
  have hhost : ∀ value, wrap CpuReplayError.toWgpu (NNIS.hostIndex value) =
      WgpuReplay.hostIndex value := fun value => by
    rw [NNIS.hostIndex, wrap_okOr]
    rfl
  simp only [checkHostPayload, expectedValues, validateReplayPayload, wrap_bind, wrap_require,
    wrap_okOr, wrap_wrap, hhost, bind_assoc, CpuReplayError.toWgpu, Function.comp_def]
  refine bind_congr fun _ => bind_congr fun _ => bind_congr fun _ => bind_congr fun expected => ?_
  by_cases hlength : rows.length = expected
  · rw [require_of _ hlength, Except.ok_bind, Except.ok_bind, hlength]
    cases rows.findIdx? fun value => !value.isFinite <;> rfl
  · rw [require_of_not _ hlength]
    rfl

theorem checkHostPayload_of_source (cpu : CpuReplaySourceV1) :
    checkHostPayload cpu.identity cpu.rowWidth cpu.rows = .ok cpu.rows.length := by
  rw [checkHostPayload_eq, cpu.valid]
  rfl

/-- The source holds the payload of a reference source. -/
structure WgpuReplaySourceV1.Mirrors (source : WgpuReplaySourceV1) (cpu : CpuReplaySourceV1) :
    Prop where
  identity : source.identity = cpu.identity
  rowWidth : source.rowWidth = cpu.rowWidth
  descriptor : source.rows.descriptor = ⟨cpu.rows.length * 4, replayUsages, .deviceLocal⟩
  buffer : source.rows.buffer = F32.bytes cpu.rows
  owner : source.rows.deviceToken = source.queue.deviceToken

theorem byteLen_of_lt {values : ℕ} (h : values * 4 < wordLimit) :
    byteLen values = .ok (values * 4) := by
  rw [byteLen, checkedMul_of_lt h]
  rfl

theorem hostIndex_of_lt {value : ℕ} (h : value < wordLimit) :
    WgpuReplay.hostIndex value = .ok value := by
  rw [WgpuReplay.hostIndex, if_pos h]
  rfl

theorem ReplayWindowRequestV1.logicalItems_eq (request : ReplayWindowRequestV1)
    (h : request.logicalEndPosition - request.logicalStartPosition + 1 < wordLimit) :
    request.logicalItems =
      .ok (request.logicalEndPosition - request.logicalStartPosition + 1) := by
  rw [logicalItems, NNIS.logicalItems, checkedSub_of_le request.start_le_end, Option.bind_some,
    checkedAdd_of_lt h]
  rfl

theorem replayDesc_of_lt {values : ℕ} (hpos : 0 < values) (h : values * 4 < wordLimit) :
    replayDesc values = .ok ⟨values * 4, replayUsages, .deviceLocal⟩ := by
  rw [replayDesc, byteLen_of_lt h, Except.ok_bind,
    BufferDesc.new_of_ne .deviceLocal (by omega) (by decide), wrap_ok]

namespace WgpuReplaySourceV1

variable {device : WgpuDevice} {identity : ReplaySourceIdentityV1} {rowWidth : ℕ} {rows : List F32}

private theorem length_rows_pos (cpu : CpuReplaySourceV1) : 0 < cpu.rows.length := by
  obtain ⟨hwidth, -, hlength, -⟩ := cpu.payload_spec
  rw [hlength]
  exact Nat.mul_pos (Nat.succ_pos _) hwidth

/-- A payload that the reference refuses is refused for the same reason. -/
theorem fromHost_of_error {e : Stop CpuReplayError}
    (h : validateReplayPayload identity rowWidth rows = .error e) (answers : WgpuAnswers) :
    (fromHost device identity rowWidth rows).run answers =
      (wrap CpuReplayError.toWgpu (.error e), answers) := by
  rw [fromHost, checkHostPayload_eq, h]
  match e with
  | .error _ | .panic => rfl

/-- A payload that the reference accepts is accepted by a device that admits its size, unless
something is refused. -/
theorem fromHost_delivers {granted : Prop} (cpu : CpuReplaySourceV1)
    (hbytes : cpu.rows.length * 4 < wordLimit) (hadmits : device.Admits (cpu.rows.length * 4)) :
    Delivers granted (RefusedAs .portable)
      (fromHost device cpu.identity cpu.rowWidth cpu.rows) fun source => source.Mirrors cpu := by
  have hpos := length_rows_pos cpu
  have hlength : (F32.bytes cpu.rows).length = cpu.rows.length * 4 := F32.length_bytes _
  rw [fromHost, checkHostPayload_of_source, Fallible.ofExcept_ok_bind,
    replayDesc_of_lt hpos hbytes, Fallible.ofExcept_ok_bind]
  refine (wrap_delivers (WgpuDevice.upload_delivers hlength.symm
    (List.ne_nil_of_length_pos (by omega)) (show replayUsages.contains .copyDst = true by decide)
    (show MemoryClass.deviceLocal ≠ .host from nofun) (hlength ▸ hadmits))).bind
      fun buffer hbuffer => Delivers.pure ?_
  obtain ⟨hheader, hlogical⟩ := hbuffer
  have hlen : buffer.len = cpu.rows.length * 4 := by
    rw [hheader]
    rfl
  refine ⟨rfl, rfl, congrArg WgpuHeader.descriptor hheader, ?_,
    congrArg WgpuHeader.deviceToken hheader⟩
  rw [← hlogical, WgpuBuffer.logical_bytes_eq (by rw [hlen, Nat.mul_mod_left])]

/-- A payload of a size that the device does not admit is refused by the device. -/
theorem fromHost_of_not_admits (cpu : CpuReplaySourceV1)
    (hbytes : cpu.rows.length * 4 < wordLimit)
    (hadmits : ¬ device.Admits (cpu.rows.length * 4)) (answers : WgpuAnswers) :
    ∃ text, (fromHost device cpu.identity cpu.rowWidth cpu.rows).run answers =
      (.error (.error (.portable (.unsupported text))), answers) := by
  have hpos := length_rows_pos cpu
  obtain ⟨text, hadmit⟩ := @WgpuDevice.admitBuffer_of_not_admits device
    ⟨cpu.rows.length * 4, replayUsages, .deviceLocal⟩
    (show cpu.rows.length * 4 ≠ 0 by omega) (show replayUsages.isEmpty = false by decide)
    (show MemoryClass.deviceLocal ≠ .host from nofun) hadmits
  refine ⟨text, ?_⟩
  rw [fromHost, checkHostPayload_of_source, Fallible.ofExcept_ok_bind,
    replayDesc_of_lt hpos hbytes, Fallible.ofExcept_ok_bind, WgpuDevice.upload,
    WgpuDevice.createBuffer, hadmit]
  rfl

/-! ### Replay -/

namespace Mirrors

variable {source : WgpuReplaySourceV1} {cpu : CpuReplaySourceV1}

theorem len (h : source.Mirrors cpu) : source.rows.len = cpu.rows.length * 4 :=
  congrArg BufferDesc.sizeBytes h.descriptor

theorem bytes_lt (h : source.Mirrors cpu) : cpu.rows.length * 4 < wordLimit := by
  have hlt := source.rows.length_lt
  rwa [h.buffer, F32.length_bytes] at hlt

end Mirrors

/-- An allocation that an existing buffer bounds. -/
theorem createBoundedBuffer_delivers {granted : Prop} {queue : WgpuQueue}
    {descriptor : BufferDesc} {bound : WgpuBuffer}
    (howner : bound.deviceToken = queue.deviceToken) (hsize : descriptor.sizeBytes ≠ 0)
    (husages : descriptor.usages.isEmpty = false) (hmemory : descriptor.memory ≠ .host)
    (hle : descriptor.sizeBytes ≤ bound.len) :
    Delivers granted (RefusedAs id) (queue.createBoundedBuffer descriptor bound) fun buffer =>
      buffer.toWgpuHeader = ⟨descriptor, queue.deviceToken⟩ := by
  have hnew : BufferDesc.new descriptor.sizeBytes descriptor.usages descriptor.memory =
      .ok descriptor := BufferDesc.new_of_ne descriptor.memory hsize husages
  have hcheck : queue.checkOwner bound.toWgpuHeader = .ok ⟨⟩ := require_of _ howner
  obtain ⟨valid, hadmit, rfl⟩ : ∃ valid, queue.admitBounded descriptor bound = .ok valid ∧
      valid.toBufferDesc = descriptor := by
    rw [WgpuQueue.admitBounded, hcheck]
    dsimp only
    split
    case h_1 e he => exact nomatch hnew.symm.trans he
    case h_2 created hcreated =>
      obtain rfl := BufferDesc.eq_of_new hcreated
      rw [dif_neg (not_or.2 ⟨hmemory, Nat.not_lt.2 hle⟩)]
      exact ⟨_, rfl, rfl⟩
  rw [WgpuQueue.createBoundedBuffer, hadmit, Fallible.ofExcept_ok_bind, allocate]
  exact (popScopes_delivers _).bind fun _ _ => Delivers.pure rfl

/-- Part of a payload is copied to a new buffer. -/
theorem replayWindow_delivers {granted : Prop} {source : WgpuReplaySourceV1}
    {cpu : CpuReplaySourceV1} (h : source.Mirrors cpu) {request : ReplayWindowRequestV1}
    {start len : ℕ} (hrange : source.windowRange request = .ok (start, len)) (hlen : 0 < len)
    (hfit : start + len ≤ cpu.rows.length) :
    Delivers granted (RefusedAs .portable) (source.replayWindow request) fun window =>
      window.words = region cpu.rows start len := by
  have hlimit := h.bytes_lt
  have hrows := h.len
  rw [replayWindow, hrange, Fallible.ofExcept_ok_bind]
  dsimp only
  rw [replayDesc_of_lt hlen (show len * 4 < wordLimit by omega), Fallible.ofExcept_ok_bind]
  refine (wrap_delivers (createBoundedBuffer_delivers h.owner (show len * 4 ≠ 0 by omega)
    (show replayUsages.isEmpty = false by decide) (show MemoryClass.deviceLocal ≠ .host from nofun)
    (show len * 4 ≤ source.rows.len by omega))).bind fun window hheader => ?_
  rw [byteLen_of_lt (show start * 4 < wordLimit by omega), Fallible.ofExcept_ok_bind,
    byteLen_of_lt (show len * 4 < wordLimit by omega), Fallible.ofExcept_ok_bind]
  have hwindow : window.len = len * 4 := by
    rw [hheader]
    rfl
  have hread : source.rows.descriptor.usages.contains .copySrc = true := by
    rw [h.descriptor]
    exact (by decide : replayUsages.contains .copySrc = true)
  have hwrite : window.descriptor.usages.contains .copyDst = true := by
    rw [hheader]
    exact (by decide : replayUsages.contains .copyDst = true)
  have hcopy : Fallible.Spec (WgpuQueue.Holds granted (slots source.rows window))
      (source.queue.copyBuffer .rows (start * 4) .window 0 (len * 4))
      (fun _ => WgpuQueue.Holds granted
        (WgpuQueue.copied (slots source.rows window) .rows (start * 4) .window 0 (len * 4)))
      (WgpuQueue.Refused granted (slots source.rows window)) :=
    WgpuQueue.copyBuffer_spec h.owner (congrArg WgpuHeader.deviceToken hheader) hread hwrite
      (show start * 4 + len * 4 ≤ source.rows.len by omega)
      (show 0 + len * 4 ≤ window.len by omega)
  refine (wrap_delivers (WgpuQueue.onBuffers_delivers hcopy)).bind fun buffers hbuffers =>
    Delivers.pure ?_
  have hregion : (F32.bytes (region cpu.rows start len)).length = len * 4 := by
    rw [F32.length_bytes, length_region hfit]
  have hbytes : region source.rows.buffer (start * 4) (len * 4) =
      F32.bytes (region cpu.rows start len) := by rw [h.buffer, F32.region_bytes]
  rw [hbuffers, WgpuQueue.copied, Function.update_self, WgpuBuffer.words]
  change F32.words (window.overwrite 0 (region source.rows.buffer _ _)).logical.bytes = _
  have hlogical : window.logical.bytes.length = len * 4 := by
    rw [WgpuBuffer.logical, List.length_take_of_le window.len_le, hwindow]
  rw [hbytes, WgpuBuffer.logical_overwrite (by rw [hregion, hwindow, Nat.zero_add])]
  change F32.words (writeRegion window.logical.bytes 0 _) = _
  rw [writeRegion_zero (by rw [hregion, hlogical]), F32.words_bytes]

/-- A window of the source lies inside its payload. -/
theorem windowRange_eq_ok {source : WgpuReplaySourceV1} {cpu : CpuReplaySourceV1}
    (h : source.Mirrors cpu) (request : ReplayWindowRequestV1)
    (hsource : request.source = cpu.identity) :
    ∃ start len, source.windowRange request = .ok (start, len) ∧ 0 < len ∧
      start + len ≤ cpu.rows.length ∧
      cpu.window request.logicalStartPosition request.logicalEndPosition =
        region cpu.rows start len := by
  obtain ⟨hwidth, hitems, hlength, -⟩ := cpu.payload_spec
  have hrange := request.start_le_end
  have hstart := request.source_start_le
  have hstop := request.end_le_source
  have hend := cpu.identity.end_lt
  rw [hsource] at hstart hstop
  have hcount := request.logicalItems_eq (by omega)
  generalize hfirst : request.logicalStartPosition - cpu.identity.logicalStartPosition = first
  generalize hrows : request.logicalEndPosition - request.logicalStartPosition + 1 = count
    at hcount
  have hfit : first * cpu.rowWidth + count * cpu.rowWidth ≤ cpu.rows.length := by
    rw [hlength, ← Nat.add_mul]
    exact Nat.mul_le_mul_right _ (by omega)
  refine ⟨first * cpu.rowWidth, count * cpu.rowWidth, ?_, Nat.mul_pos (by omega) hwidth, hfit, ?_⟩
  · have hlimit := h.bytes_lt
    have hlen := h.len
    rw [windowRange, h.identity, h.rowWidth, require_of _ hsource.symm, Except.ok_bind,
      checkedSub_of_le hstart, hfirst, okOr_some, Except.ok_bind, hostIndex_of_lt (by omega),
      Except.ok_bind, hcount, wrap_ok, Except.ok_bind, hostIndex_of_lt (by omega), Except.ok_bind,
      checkedMul_of_lt (by omega), okOr_some, Except.ok_bind, checkedMul_of_lt (by omega),
      okOr_some, Except.ok_bind, checkedAdd_of_lt (by omega), okOr_some, Except.ok_bind,
      byteLen_of_lt (by omega), Except.ok_bind, require_of _ (by omega)]
    rfl
  · rw [CpuReplaySourceV1.window, hfirst, hrows]

/-- A request is answered as by the reference, unless something is refused. -/
theorem replayWindow_agrees {source : WgpuReplaySourceV1} {cpu : CpuReplaySourceV1}
    (h : source.Mirrors cpu) (request : ReplayWindowRequestV1) (answers : WgpuAnswers) :
    answers.Yields .portable (source.replayWindow request) fun r =>
      r.map WgpuBuffer.words = wrap CpuReplayError.toWgpu (cpu.replayWindow request) := by
  by_cases hsource : request.source = cpu.identity
  · obtain ⟨start, len, hrange, hlen, hfit, hwindow⟩ := windowRange_eq_ok h request hsource
    refine .of_delivers (replayWindow_delivers h hrange hlen hfit) fun window hwords => ?_
    rw [cpu.replayWindow_eq_ok request hsource, wrap_ok, hwindow, ← hwords]
    rfl
  · have hne : source.identity ≠ request.source := by
      rw [h.identity]
      exact Ne.symm hsource
    refine .inl ?_
    rw [cpu.replayWindow_mismatch request hsource, replayWindow, windowRange, require_of_not _ hne]
    rfl

/-- The most recent positions are replayed as by the reference, unless something is refused. -/
theorem replayRecentWindow_agrees {source : WgpuReplaySourceV1} {cpu : CpuReplaySourceV1}
    (h : source.Mirrors cpu) (windowItems : ℕ) (answers : WgpuAnswers) :
    answers.Yields .portable (source.replayRecentWindow windowItems) fun r =>
      r.map (fun answer => (answer.1, answer.2.words)) =
        wrap CpuReplayError.toWgpu (cpu.replayRecentWindow windowItems) := by
  rw [replayRecentWindow, CpuReplaySourceV1.replayRecentWindow, h.identity]
  rcases hrecent : ReplayWindowRequestV1.recent cpu.identity windowItems with e | request
  · exact .inl (by cases e <;> rfl)
  · rw [wrap_ok, wrap_ok, Fallible.ofExcept_ok_bind, Except.ok_bind, wrap_bind]
    rcases replayWindow_agrees h request answers with hwindow | ⟨hrefused, e, he, hrefusal⟩
    · refine .inl ?_
      rw [← hwindow, Fallible.run_bind]
      rcases (source.replayWindow request).run answers with ⟨e | window, answers'⟩ <;> rfl
    · refine .inr ⟨hrefused, e, ?_, hrefusal⟩
      rw [Fallible.run_bind_error (Prod.ext he rfl)]

/-- The source answers every request as the reference source does, unless the host or the device
refuses an operation. -/
structure Answers (source : WgpuReplaySourceV1) (cpu : CpuReplaySourceV1) : Prop where
  window : ∀ request (answers : WgpuAnswers),
    answers.Yields .portable (source.replayWindow request) fun r =>
      r.map WgpuBuffer.words = wrap CpuReplayError.toWgpu (cpu.replayWindow request)
  recent : ∀ windowItems (answers : WgpuAnswers),
    answers.Yields .portable (source.replayRecentWindow windowItems) fun r =>
      r.map (fun answer => (answer.1, answer.2.words)) =
        wrap CpuReplayError.toWgpu (cpu.replayRecentWindow windowItems)

end WgpuReplaySourceV1

/-! ### Both backends -/

/-- No subtraction of a recent window wraps, every reference source answers exactly, and a payload
whose bytes fit 64 bits is refused by a device for the reason of the reference, or because the
device does not admit its size, or is bound to a source that answers as the reference. Where the
device admits the size, the upload and each answer may instead be refused by the host or the
device. -/
theorem replay_agrees (identity : ReplaySourceIdentityV1) (rowWidth : ℕ) (rows : List F32) :
    (∀ windowItems, ReplayWindowRequestV1.recentU64 identity windowItems =
      ReplayWindowRequestV1.recent identity windowItems) ∧
    (∀ cpu, CpuReplaySourceV1.new identity rowWidth rows = .ok cpu → cpu.Exact) ∧
    (rows.length * 4 < wordLimit → ∀ (device : WgpuDevice) (answers : WgpuAnswers),
      (∀ e, CpuReplaySourceV1.new identity rowWidth rows = .error e →
        ((WgpuReplaySourceV1.fromHost device identity rowWidth rows).run answers).1 =
          wrap CpuReplayError.toWgpu (.error e)) ∧
      ∀ cpu, CpuReplaySourceV1.new identity rowWidth rows = .ok cpu →
        (device.Admits (rows.length * 4) → answers.Yields .portable
          (WgpuReplaySourceV1.fromHost device identity rowWidth rows) fun r =>
            ∃ source, r = .ok source ∧ source.Answers cpu) ∧
        (¬ device.Admits (rows.length * 4) → ∃ text,
          ((WgpuReplaySourceV1.fromHost device identity rowWidth rows).run answers).1 =
            .error (.error (.portable (.unsupported text))))) := by
  refine ⟨ReplayWindowRequestV1.recentU64_eq identity, fun cpu _ => cpu.exact,
    fun hbytes device answers => ⟨fun e he => ?_, fun cpu hcpu => ?_⟩⟩
  · rw [WgpuReplaySourceV1.fromHost_of_error (CpuReplaySourceV1.error_of_new he)]
  · obtain ⟨rfl, rfl, rfl⟩ := CpuReplaySourceV1.eq_of_new hcpu
    refine ⟨fun hadmits => ?_, fun hadmits => ?_⟩
    · exact .of_delivers (WgpuReplaySourceV1.fromHost_delivers cpu hbytes hadmits)
        fun source hmirrors => ⟨source, rfl, ⟨WgpuReplaySourceV1.replayWindow_agrees hmirrors,
          WgpuReplaySourceV1.replayRecentWindow_agrees hmirrors⟩⟩
    · obtain ⟨text, hrun⟩ := WgpuReplaySourceV1.fromHost_of_not_admits cpu hbytes hadmits answers
      exact ⟨text, congrArg Prod.fst hrun⟩

private theorem valid_dense : validateReplayId "representation_id" "dense" = .ok ⟨⟩ := by
  decide +kernel

private theorem valid_cpu : validateReplayId "provider_id" "cpu" = .ok ⟨⟩ := by
  decide +kernel

private theorem valid_cache : validateReplayId "source_id" "cache" = .ok ⟨⟩ := by
  decide +kernel

private theorem firstVersion_ne : (1 : UInt32) ≠ 0 := by decide

private theorem firstPosition_le : 0 ≤ 0 := Nat.le_refl 0

private theorem firstPosition_lt : 0 < wordLimit := by decide

/-- A source of one position. -/
private def largeIdentity : ReplaySourceIdentityV1 where
  providerId := "cpu"
  sourceId := "cache"
  sourceGeneration := 0
  representation := ⟨"dense", 1, 0, valid_dense, firstVersion_ne⟩
  logicalStartPosition := 0
  logicalEndPosition := 0
  providerId_valid := valid_cpu
  sourceId_valid := valid_cache
  start_le_end := firstPosition_le
  end_lt := firstPosition_lt

private theorem valid_replicate {n : ℕ} (hpos : n ≠ 0) (hlt : n < wordLimit) :
    validateReplayPayload largeIdentity n (List.replicate n (Binary.zero false)) = .ok ⟨⟩ := by
  have hfinite : (List.replicate n (Binary.zero false : F32)).findIdx?
      (fun value => !value.isFinite) = none := by
    rw [List.findIdx?_eq_none_iff]
    intro x hx
    rw [List.eq_of_mem_replicate hx]
    rfl
  have hitems : largeIdentity.logicalItems = .ok 1 := rfl
  have hhost : NNIS.hostIndex 1 = .ok 1 := rfl
  rw [validateReplayPayload, hfinite, require_of _ hpos, Except.ok_bind, hitems, wrap_ok,
    Except.ok_bind, hhost, Except.ok_bind, checkedMul_of_lt (by rwa [Nat.one_mul]), Nat.one_mul,
    okOr_some, Except.ok_bind, require_of _ List.length_replicate]
  rfl

/-- A row of zeros that the device does not admit. -/
private theorem fromHost_replicate {n : ℕ} (hpos : n ≠ 0) (hbytes : n * 4 < wordLimit)
    {device : WgpuDevice} (hadmits : device.maxBufferBytes < n * 4) (answers : WgpuAnswers) :
    (List.replicate n (Binary.zero false : F32)).length * 4 < wordLimit ∧
    (∃ cpu, CpuReplaySourceV1.new largeIdentity n (List.replicate n (Binary.zero false)) =
      .ok cpu) ∧
    ∃ text, ((WgpuReplaySourceV1.fromHost device largeIdentity n
      (List.replicate n (Binary.zero false))).run answers).1 =
        .error (.error (.portable (.unsupported text))) := by
  have hvalid := valid_replicate hpos (show n < wordLimit by omega)
  generalize hrows : List.replicate n (Binary.zero false : F32) = rows at hvalid
  have hlength : rows.length = n := hrows ▸ List.length_replicate
  rw [← hlength] at hbytes hadmits
  refine ⟨hbytes, ⟨⟨largeIdentity, n, rows, hvalid⟩, ?_⟩, ?_⟩
  · unfold CpuReplaySourceV1.new
    split
    case h_1 e he => exact nomatch hvalid.symm.trans he
    case h_2 => rfl
  · obtain ⟨text, hrun⟩ := WgpuReplaySourceV1.fromHost_of_not_admits
      ⟨largeIdentity, n, rows, hvalid⟩ hbytes (fun h => Nat.not_le.2 hadmits h.1) answers
    exact ⟨text, congrArg Prod.fst hrun⟩

/-- A payload of four gibibytes fits 64 bits and is accepted by the reference, and refused by every
device, whose storage bindings have 32-bit sizes. -/
theorem fromHost_ne_new :
    (List.replicate (2 ^ 30) (Binary.zero false : F32)).length * 4 < wordLimit ∧
    (∃ cpu, CpuReplaySourceV1.new largeIdentity (2 ^ 30)
      (List.replicate (2 ^ 30) (Binary.zero false)) = .ok cpu) ∧
    ∃ text, ((WgpuReplaySourceV1.fromHost .largest largeIdentity (2 ^ 30)
      (List.replicate (2 ^ 30) (Binary.zero false))).run .granting).1 =
        .error (.error (.portable (.unsupported text))) :=
  fromHost_replicate (by decide) (by decide) (by decide) .granting

end NNIS
