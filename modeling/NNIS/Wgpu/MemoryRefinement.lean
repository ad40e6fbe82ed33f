import NNIS.Wgpu.Memory

/-!
# WGPU buffers are byte arrays

A buffer stands for the bytes before its padding. A call on buffers does what the same call does on
plain byte arrays, unless the host refuses memory or the device reports an error; then it changes
nothing.

## Main definitions

* `WgpuRefusal`, `WgpuAnswers.Grants` — what the host or the device refuses.
* `WgpuAnswers.Yields` — an outcome unless something is refused.
* `PlainBuffer`, `WgpuBuffer.logical`.
* `WgpuCall`, `WgpuQueue.call`, `WgpuQueue.plainCall` — a call on buffers and on byte arrays.
* `WgpuQueue.runCalls`, `WgpuQueue.Follows` — a sequence of calls, and what it may do.

## Main results

* `WgpuQueue.readWgpu_delivers`, `WgpuQueue.readRaw_spec`, `WgpuQueue.writeRaw_spec`,
  `WgpuQueue.copyBufferToBuffer_spec`, `WgpuQueue.copyThroughHost_spec`.
* `WgpuDevice.createBuffer_delivers`, `WgpuDevice.upload_delivers` — a new buffer.
* `WgpuQueue.call_refines` — one call.
* `WgpuQueue.runCalls_follows`, `WgpuQueue.wgpuBuffers_byteArrays` — a sequence of calls.
-/

set_option autoImplicit false

namespace NNIS

/-! ### Answers -/

/-- The error of an operation that the host or the device refused. -/
def WgpuRefusal (error : PortableError) : Prop :=
  (∃ operation text, error = WgpuAnswers.failed operation text) ∨
    error = .backend "WGPU readback callback dropped"

/-- An end of a computation that carries such an error. -/
def RefusedAs {ε : Type} (f : PortableError → ε) (e : Stop ε) : Prop :=
  ∃ error, WgpuRefusal error ∧ e = .error (f error)

/-- The host grants all memory and the device reports no error. -/
structure WgpuAnswers.Grants (answers : WgpuAnswers) : Prop where
  host : answers.host.Grants
  reports : ∀ k, answers.reports k = none

instance : Surroundings WgpuAnswers := ⟨WgpuAnswers.Grants⟩

theorem WgpuAnswers.granting_grants : granting.Grants := ⟨fun _ size => ⟨size, rfl⟩, fun _ => rfl⟩

section

variable {granted : Prop}

theorem nextReport_delivers {E : Stop PortableError → Prop} :
    Delivers granted E nextReport fun report => granted → report = none :=
  fun _ hs => ⟨fun hg => (hs hg).reports 0,
    fun hg => ⟨(hs hg).host, fun k => (hs hg).reports (k + 1)⟩⟩

theorem popScopes_delivers (operation : String) :
    Delivers granted (RefusedAs id) (popScopes operation) fun _ => True := by
  refine nextReport_delivers.bind fun report hreport => ?_
  cases report with
  | none => exact Delivers.pure trivial
  | some error =>
    exact Fallible.Spec.fail _ fun _ _ =>
      ⟨⟨_, .inl ⟨operation, error, rfl⟩, rfl⟩, fun hg => nomatch hreport hg⟩

theorem wrap_delivers {ε α : Type} {f : PortableError → ε} {m : WgpuCallM α} {Q : α → Prop}
    (h : Delivers granted (RefusedAs id) m Q) : Delivers granted (RefusedAs f) (m.wrap f) Q := by
  refine h.mapError ?_
  rintro _ ⟨error, herror, rfl⟩
  exact ⟨error, herror, rfl⟩

theorem WgpuQueue.reserveBytes_delivers (size : ℕ) :
    Delivers granted (RefusedAs id) (reserveBytes size) fun _ => True := by
  rintro ⟨host, reports⟩ hs
  rw [reserveBytes, Fallible.run_bind_ok (m := Fallible.zoom _ _ _) rfl]
  cases hanswer : host.answer 0 size with
  | ok capacity => exact ⟨trivial, fun hg => ⟨(hs hg).host.rest, (hs hg).reports⟩⟩
  | error error =>
    refine ⟨⟨_, .inl ⟨_, error, rfl⟩, rfl⟩, fun hg => ?_⟩
    obtain ⟨capacity, hcapacity⟩ := (hs hg).host 0 size
    exact nomatch hanswer.symm.trans hcapacity

/-- A computation has an outcome that meets the condition, or the host or the device refuses one of
its operations, and it returns that error. -/
def WgpuAnswers.Yields {ε α : Type} (answers : WgpuAnswers) (f : PortableError → ε)
    (m : Fallible WgpuAnswers (Stop ε) α) (P : Outcome ε α → Prop) : Prop :=
  P (m.run answers).1 ∨ ¬ answers.Grants ∧ ∃ e, (m.run answers).1 = .error e ∧ RefusedAs f e

namespace WgpuAnswers.Yields

variable {ε α β : Type} {answers : WgpuAnswers} {f : PortableError → ε}
  {m : Fallible WgpuAnswers (Stop ε) α} {P : Outcome ε α → Prop}

theorem of_delivers {Q : α → Prop} (h : Delivers answers.Grants (RefusedAs f) m Q)
    (hP : ∀ a, Q a → P (.ok a)) : answers.Yields f m P := by
  rcases h.run_cases id with ⟨a, answers', hrun, ha, -⟩ | ⟨e, answers', hrun, he, hrefused⟩
  · exact .inl (by rw [hrun]; exact hP a ha)
  · exact .inr ⟨hrefused, e, by rw [hrun], he⟩

/-- A computation behind one that only a refusal stops. -/
theorem bind {g : α → Fallible WgpuAnswers (Stop ε) β} {Q : α → Prop} {R : Outcome ε β → Prop}
    (h : Delivers answers.Grants (RefusedAs f) m Q)
    (hg : ∀ a (answers' : WgpuAnswers), Q a → answers'.Yields f (g a) R) :
    answers.Yields f (m >>= g) R := by
  rcases h.run_cases id with ⟨a, answers', hrun, ha, hgrants⟩ | ⟨e, answers', hrun, he, hrefused⟩
  · rw [Yields, Fallible.run_bind_ok hrun]
    exact (hg a answers' ha).imp_right fun h => ⟨fun hg => h.1 (hgrants hg), h.2⟩
  · rw [Yields, Fallible.run_bind_error hrun]
    exact .inr ⟨hrefused, e, rfl, he⟩

/-- Where nothing is refused the outcome meets the condition. -/
theorem of_grants (h : answers.Yields f m P) (hgrants : answers.Grants) : P (m.run answers).1 :=
  h.resolve_right fun hrefused => hrefused.1 hgrants

end WgpuAnswers.Yields

end

/-! ### Alignment -/

theorem paddedSize_mod (bytes : ℕ) : paddedSize bytes % 4 = 0 := by
  rw [paddedSize_eq]
  omega

theorem le_paddedSize (bytes : ℕ) : bytes ≤ paddedSize bytes := by
  rw [paddedSize_eq]
  omega

/-- The aligned end of a range inside an allocation does not leave the allocation. -/
theorem rangeEnd_alignUp {ε : Type} {offset size total : ℕ} (h : offset + size ≤ total)
    (htotal : total % 4 = 0) (hlt : total < wordLimit) :
    (rangeEnd offset size >>= alignUp : Outcome ε ℕ) = .ok (paddedSize (offset + size)) ∧
      paddedSize (offset + size) ≤ total := by
  have hle : paddedSize (offset + size) ≤ total := by
    rw [paddedSize_eq]
    omega
  refine ⟨?_, hle⟩
  rw [rangeEnd, if_pos (Nat.lt_of_le_of_lt h hlt), Except.ok_bind, alignUp,
    if_pos (Nat.lt_of_le_of_lt hle hlt)]

/-- The aligned start of a range. -/
private theorem exists_start (offset : ℕ) : ∃ start,
    offset - offset % copyBufferAlignment = start ∧ start % 4 = 0 ∧ start ≤ offset :=
  ⟨offset - offset % 4, rfl, by omega, by omega⟩

namespace WgpuBuffer

theorem length_buffer_mod (self : WgpuBuffer) : self.buffer.length % 4 = 0 := by
  rw [self.length_buffer]
  exact paddedSize_mod _

theorem len_le (self : WgpuBuffer) : self.len ≤ self.buffer.length := by
  rw [self.length_buffer]
  exact le_paddedSize _

theorem ext_buffer {self other : WgpuBuffer} (hheader : self.toWgpuHeader = other.toWgpuHeader)
    (hbuffer : self.buffer = other.buffer) : self = other := by
  cases self
  cases other
  cases hheader
  cases hbuffer
  rfl

@[simp] theorem overwrite_header (self : WgpuBuffer) (offset : ℕ) (bytes : List UInt8) :
    (self.overwrite offset bytes).toWgpuHeader = self.toWgpuHeader := rfl

@[simp] theorem overwrite_buffer (self : WgpuBuffer) (offset : ℕ) (bytes : List UInt8) :
    (self.overwrite offset bytes).buffer = writeRegion self.buffer offset bytes := rfl

theorem overwrite_nil (self : WgpuBuffer) (offset : ℕ) : self.overwrite offset [] = self := by
  refine ext_buffer rfl ?_
  rw [overwrite_buffer, writeRegion]
  split_ifs
  · rw [List.append_nil, List.length_nil, Nat.add_zero, List.take_append_drop]
  · rfl

end WgpuBuffer

namespace WgpuQueue

variable {ι : Type} [DecidableEq ι]

/-! ### Data movement -/

omit [DecidableEq ι] in
private theorem admitCopy_of {sourceBytes sourceOffset destinationBytes destinationOffset size : ℕ}
    (hsource : sourceOffset % 4 = 0) (hdestination : destinationOffset % 4 = 0)
    (hsize : size % 4 = 0) (hsourceFit : sourceOffset + size ≤ sourceBytes)
    (hdestinationFit : destinationOffset + size ≤ destinationBytes) :
    admitCopy sourceBytes sourceOffset destinationBytes destinationOffset size = .ok ⟨⟩ :=
  if_pos ⟨hsource, hdestination, hsize, hsourceFit, hdestinationFit⟩

/-- A state with given buffers, whose answers grant everything if `G` holds. -/
def Holds (G : Prop) (buffers : ι → WgpuBuffer) (state : WgpuState ι) : Prop :=
  state.buffers = buffers ∧ (G → state.toWgpuAnswers.Grants)

/-- A refusal of the host or of the device that leaves given buffers. -/
def Refused (G : Prop) (buffers : ι → WgpuBuffer) (e : Stop PortableError) (state : WgpuState ι) :
    Prop :=
  RefusedAs id e ∧ state.buffers = buffers ∧ ¬ G

variable {G : Prop} {buffers : ι → WgpuBuffer}

omit [DecidableEq ι] in
/-- A computation beside buffers leaves them. -/
theorem beside_spec {α : Type} {m : WgpuCallM α} {Q : α → Prop}
    (h : Delivers G (RefusedAs id) m Q) :
    Fallible.Spec (Holds G buffers) m.beside (fun a state => Q a ∧ Holds G buffers state)
      (Refused G buffers) := by
  rintro ⟨answers, _⟩ ⟨rfl, hgrants⟩
  rw [WgpuCallM.beside, Fallible.run_zoom]
  rcases h.run_cases hgrants with ⟨a, answers', hrun, ha, hgrants'⟩ | ⟨e, answers', hrun, he⟩
  · rw [hrun]
    exact ⟨ha, rfl, hgrants'⟩
  · rw [hrun]
    exact ⟨he.1, rfl, he.2⟩

omit [DecidableEq ι] in
/-- A program on buffers that its caller owns hands them out. -/
theorem onBuffers_delivers {final : ι → WgpuBuffer} {m : WgpuM ι PUnit}
    (h : Fallible.Spec (Holds G buffers) m (fun _ => Holds G final) (Refused G buffers)) :
    Delivers G (RefusedAs id) (m.onBuffers buffers) fun buffers' => buffers' = final := by
  intro answers hgrants
  have hpost := h ⟨answers, buffers⟩ ⟨rfl, hgrants⟩
  simp only [WgpuM.onBuffers]
  rcases hrun : m.run ⟨answers, buffers⟩ with ⟨e | _, state⟩ <;> rw [hrun] at hpost
  · exact ⟨hpost.1, hpost.2.2⟩
  · exact hpost

omit [DecidableEq ι] in
theorem get_bind_spec {α : Type} {f : WgpuState ι → WgpuM ι α}
    {Q : α → WgpuState ι → Prop} {E : Stop PortableError → WgpuState ι → Prop}
    (h : ∀ state, state.buffers = buffers → Fallible.Spec (Holds G buffers) (f state) Q E) :
    Fallible.Spec (Holds G buffers) (Fallible.get >>= f) Q E :=
  fun state hstate => h state hstate.1 state hstate

omit [DecidableEq ι] in
/-- A read of a range inside a padded allocation. -/
theorem readWgpu_delivers {allocation : List UInt8} {offset size : ℕ}
    (hmod : allocation.length % 4 = 0) (hlt : allocation.length < wordLimit)
    (h : offset + size ≤ allocation.length) :
    Delivers G (RefusedAs id) (readWgpu allocation offset size) fun bytes =>
      bytes = region allocation offset size := by
  rw [readWgpu]
  refine (reserveBytes_delivers size).bind fun _ _ => ?_
  split_ifs with hzero
  · refine Delivers.pure ?_
    rw [hzero, region, List.take_zero]
  obtain ⟨hstop, hle⟩ := rangeEnd_alignUp (ε := PortableError) h hmod hlt
  have hpadded := paddedSize_mod (offset + size)
  have hlow := le_paddedSize (offset + size)
  obtain ⟨start, hstartEq, hstart, hstartLe⟩ := exists_start offset
  dsimp only
  rw [hstop, Fallible.ofExcept_ok_bind, hstartEq]
  generalize paddedSize (offset + size) = stop at hle hpadded hlow
  have hregion : (region allocation start (stop - start)).length = stop - start :=
    length_region (by omega)
  -- The staging buffer holds the whole span.
  have hstaging : writeRegion (List.replicate (stop - start) 0) 0
      (region allocation start (stop - start)) = region allocation start (stop - start) := by
    rw [writeRegion, if_pos (by rw [hregion, List.length_replicate]; omega), hregion,
      List.take_zero, List.nil_append,
      List.drop_of_length_le (by rw [List.length_replicate]; omega), List.append_nil]
  have hslice : (Outcome.slice (region allocation start (stop - start))
      (offset - start) (offset - start + size) : Outcome PortableError (List UInt8)) =
        .ok (region allocation offset size) := by
    refine Outcome.slice_eq_ok_iff.2 ⟨by omega, by omega, ?_⟩
    rw [region_region _ _ _ (by omega), Nat.add_sub_cancel_left, Nat.add_sub_cancel' hstartLe]
  rw [admitCopy_of hstart rfl (by omega) (by omega) (by omega), Fallible.ofExcept_ok_bind,
    hstaging, hslice]
  refine (popScopes_delivers _).bind fun _ _ => nextReport_delivers.bind fun dropped hdropped => ?_
  cases dropped with
  | none =>
    rw [Outcome.require_of _ rfl, Fallible.ofExcept_ok_bind]
    exact (popScopes_delivers _).bind fun _ _ => Delivers.ofExcept rfl rfl
  | some error =>
    exact fun _ _ => ⟨⟨_, .inr rfl, rfl⟩, fun hg => absurd (hdropped hg) (Option.some_ne_none _)⟩

omit [DecidableEq ι] in
/-- A read of a range inside a buffer. -/
theorem readRaw_spec {buffer : ι} {offset size : ℕ}
    (h : offset + size ≤ (buffers buffer).buffer.length) :
    Fallible.Spec (Holds G buffers) (readRaw buffer offset size)
      (fun bytes state => bytes = region (buffers buffer).buffer offset size ∧
        Holds G buffers state) (Refused G buffers) := by
  rw [readRaw]
  refine get_bind_spec fun state hstate => ?_
  rw [hstate]
  exact beside_spec (readWgpu_delivers (buffers buffer).length_buffer_mod
    (buffers buffer).length_lt h)

/-- A submission that overwrites a range of a buffer unless the device reports an error of it. -/
private theorem submit_overwrite_spec (operation : String) (buffer : ι) (offset : ℕ)
    (bytes : List UInt8) :
    Fallible.Spec (Holds G buffers) ((popScopes operation).beside >>= fun _ =>
        Fallible.modify fun state => { state with
          buffers := Function.update state.buffers buffer
            ((state.buffers buffer).overwrite offset bytes) })
      (fun _ => Holds G (Function.update buffers buffer ((buffers buffer).overwrite offset bytes)))
      (Refused G buffers) := by
  refine (beside_spec (popScopes_delivers operation)).bind fun _ => Fallible.Spec.modify _ ?_
  rintro ⟨answers, _⟩ ⟨-, rfl, hgrants⟩
  exact ⟨rfl, hgrants⟩

/-- A write of an aligned range inside an allocation. -/
theorem writeAllocation_spec {buffer : ι} {offset : ℕ} {bytes : List UInt8}
    (hoffset : offset % 4 = 0) (hbytes : bytes.length % 4 = 0)
    (h : offset + bytes.length ≤ (buffers buffer).buffer.length) :
    Fallible.Spec (Holds G buffers) (writeAllocation buffer offset bytes)
      (fun _ => Holds G (Function.update buffers buffer ((buffers buffer).overwrite offset bytes)))
      (Refused G buffers) := by
  rw [writeAllocation]
  refine get_bind_spec fun state hstate => ?_
  rw [hstate, admitCopy_of rfl hoffset hbytes (by omega) h, Fallible.ofExcept_ok_bind]
  exact submit_overwrite_spec _ buffer offset bytes

/-- A write of a range inside an allocation. -/
theorem writeRaw_spec {buffer : ι} {offset : ℕ} {bytes : List UInt8}
    (h : offset + bytes.length ≤ (buffers buffer).buffer.length) :
    Fallible.Spec (Holds G buffers) (writeRaw buffer offset bytes)
      (fun _ => Holds G (Function.update buffers buffer ((buffers buffer).overwrite offset bytes)))
      (Refused G buffers) := by
  have hmod := (buffers buffer).length_buffer_mod
  rw [writeRaw]
  dsimp only
  split_ifs with hzero
  · obtain rfl := List.eq_nil_of_length_eq_zero hzero
    rw [WgpuBuffer.overwrite_nil, Function.update_eq_self]
    exact Fallible.Spec.pure _ fun _ hstate => hstate
  obtain ⟨hstop, hle⟩ := rangeEnd_alignUp (ε := PortableError) h hmod (buffers buffer).length_lt
  have hpadded := paddedSize_mod (offset + bytes.length)
  have hlow := le_paddedSize (offset + bytes.length)
  obtain ⟨start, hstartEq, hstart, hstartLe⟩ := exists_start offset
  rw [hstop, Fallible.ofExcept_ok_bind, hstartEq]
  generalize paddedSize (offset + bytes.length) = stop at hle hpadded hlow
  split_ifs with haligned
  · exact writeAllocation_spec (by omega) (by omega) h
  -- The span around the range is read, changed in the range and written back.
  refine (readRaw_spec (show start + (stop - start) ≤ _ by omega)).bind fun span => ?_
  refine Fallible.Spec.of_forall fun state => ?_
  rintro ⟨rfl, hstate⟩
  have hregion : (region (buffers buffer).buffer start (stop - start)).length = stop - start :=
    length_region (by omega)
  have hcopy : (Outcome.copyAt (region (buffers buffer).buffer start (stop - start))
      (offset - start) bytes : Outcome PortableError (List UInt8)) =
        .ok (writeRegion (region (buffers buffer).buffer start (stop - start)) (offset - start)
          bytes) :=
    Outcome.copyAt_eq_ok_iff.2 ⟨by omega, rfl⟩
  have hspan : (writeRegion (region (buffers buffer).buffer start (stop - start)) (offset - start)
      bytes).length = stop - start := by rw [length_writeRegion, hregion]
  have hover : (buffers buffer).overwrite start (writeRegion (region (buffers buffer).buffer start
      (stop - start)) (offset - start) bytes) = (buffers buffer).overwrite offset bytes := by
    refine WgpuBuffer.ext_buffer rfl ?_
    rw [WgpuBuffer.overwrite_buffer, WgpuBuffer.overwrite_buffer,
      writeRegion_region_writeRegion (by omega) (by omega), Nat.add_sub_cancel' hstartLe]
  rw [hcopy, Fallible.ofExcept_ok_bind, ← hover]
  exact (writeAllocation_spec hstart (by omega) (by omega)).conseq (fun _ hs => hs ▸ hstate)
    (fun _ _ hs => hs) fun _ _ hs => hs

omit [DecidableEq ι] in
private theorem length_region_of_le {buffer : ι} {offset size : ℕ}
    (h : offset + size ≤ (buffers buffer).buffer.length) :
    (region (buffers buffer).buffer offset size).length = size := length_region h

/-- The buffers after a copy. -/
def copied (buffers : ι → WgpuBuffer) (source : ι) (sourceOffset : ℕ) (destination : ι)
    (destinationOffset size : ℕ) : ι → WgpuBuffer :=
  Function.update buffers destination ((buffers destination).overwrite destinationOffset
    (region (buffers source).buffer sourceOffset size))

/-- A copy of an aligned range on the device. -/
theorem copyBufferToBuffer_spec {source destination : ι} {sourceOffset destinationOffset size : ℕ}
    (haligned : sourceOffset % 4 = 0 ∧ destinationOffset % 4 = 0 ∧ size % 4 = 0)
    (hsource : sourceOffset + size ≤ (buffers source).buffer.length)
    (hdestination : destinationOffset + size ≤ (buffers destination).buffer.length) :
    Fallible.Spec (Holds G buffers)
      (copyBufferToBuffer source sourceOffset destination destinationOffset size)
      (fun _ => Holds G
        (copied buffers source sourceOffset destination destinationOffset size))
      (Refused G buffers) := by
  rw [copyBufferToBuffer]
  refine get_bind_spec fun state hstate => ?_
  dsimp only
  rw [hstate, admitCopy_of haligned.1 haligned.2.1 haligned.2.2 hsource hdestination,
    Fallible.ofExcept_ok_bind]
  exact submit_overwrite_spec _ destination destinationOffset _

/-- A copy that is staged through the host. -/
theorem copyThroughHost_spec {source destination : ι} {sourceOffset destinationOffset size : ℕ}
    (hsource : sourceOffset + size ≤ (buffers source).buffer.length)
    (hdestination : destinationOffset + size ≤ (buffers destination).buffer.length) :
    Fallible.Spec (Holds G buffers)
      (copyThroughHost source sourceOffset destination destinationOffset size)
      (fun _ => Holds G
        (copied buffers source sourceOffset destination destinationOffset size))
      (Refused G buffers) := by
  rw [copyThroughHost]
  refine (readRaw_spec hsource).bind fun bytes => Fallible.Spec.of_forall fun state => ?_
  rintro ⟨rfl, hstate⟩
  have hlength := length_region_of_le hsource
  exact (writeRaw_spec (by omega)).conseq (fun _ hs => hs ▸ hstate) (fun _ _ hs => hs)
    fun _ _ hs => hs

/-- The three paths of a copy. -/
private theorem copyOfRange_spec {source destination : ι}
    {sourceOffset destinationOffset size : ℕ}
    (hsource : sourceOffset + size ≤ (buffers source).buffer.length)
    (hdestination : destinationOffset + size ≤ (buffers destination).buffer.length) :
    Fallible.Spec (Holds G buffers)
      (if size = 0 then pure ⟨⟩
        else if sourceOffset % copyBufferAlignment = 0 ∧
            destinationOffset % copyBufferAlignment = 0 ∧ size % copyBufferAlignment = 0 then
          copyBufferToBuffer source sourceOffset destination destinationOffset size
        else copyThroughHost source sourceOffset destination destinationOffset size)
      (fun _ => Holds G
        (copied buffers source sourceOffset destination destinationOffset size))
      (Refused G buffers) := by
  split_ifs with hzero haligned
  · have hnil : region (buffers source).buffer sourceOffset size = [] := by
      rw [hzero, region, List.take_zero]
    rw [copied, hnil, WgpuBuffer.overwrite_nil, Function.update_eq_self]
    exact Fallible.Spec.pure _ fun _ hs => hs
  · exact copyBufferToBuffer_spec haligned hsource hdestination
  · exact copyThroughHost_spec hsource hdestination

theorem checkedRange_of_le {total offset size : ℕ} (h : offset + size ≤ total)
    (htotal : total < wordLimit) : checkedRange total offset size = .ok ⟨⟩ := by
  have hadd : checkedAdd offset size = some (offset + size) :=
    checkedAdd_eq_some_iff.2 ⟨rfl, Nat.lt_of_le_of_lt h htotal⟩
  rw [checkedRange, hadd]
  exact Outcome.require_of _ h

/-- A write of a range inside a buffer that its queue may write. -/
theorem writeBuffer_spec {queue : WgpuQueue} {buffer : ι} {offset : ℕ} {bytes : List UInt8}
    (howner : (buffers buffer).deviceToken = queue.deviceToken)
    (husage : (buffers buffer).descriptor.usages.contains .copyDst = true)
    (h : offset + bytes.length ≤ (buffers buffer).len) :
    Fallible.Spec (Holds G buffers) (queue.writeBuffer buffer offset bytes)
      (fun _ => Holds G (Function.update buffers buffer ((buffers buffer).overwrite offset bytes)))
      (Refused G buffers) := by
  have hall := (buffers buffer).len_le
  rw [writeBuffer]
  refine get_bind_spec fun state hstate => ?_
  rw [hstate, checkOwner, Outcome.require_of _ howner, Fallible.ofExcept_ok_bind,
    WgpuHeader.requireUsage, Outcome.require_of _ husage, Fallible.ofExcept_ok_bind,
    checkedRange_of_le h (Nat.lt_of_le_of_lt hall (buffers buffer).length_lt),
    Fallible.ofExcept_ok_bind]
  exact writeRaw_spec (h.trans hall)

/-- A copy of a range between buffers that their queue may read and write. -/
theorem copyBuffer_spec {queue : WgpuQueue} {source destination : ι}
    {sourceOffset destinationOffset size : ℕ}
    (hsourceOwner : (buffers source).deviceToken = queue.deviceToken)
    (hdestinationOwner : (buffers destination).deviceToken = queue.deviceToken)
    (hsourceUsage : (buffers source).descriptor.usages.contains .copySrc = true)
    (hdestinationUsage : (buffers destination).descriptor.usages.contains .copyDst = true)
    (hsource : sourceOffset + size ≤ (buffers source).len)
    (hdestination : destinationOffset + size ≤ (buffers destination).len) :
    Fallible.Spec (Holds G buffers)
      (queue.copyBuffer source sourceOffset destination destinationOffset size)
      (fun _ => Holds G
        (copied buffers source sourceOffset destination destinationOffset size))
      (Refused G buffers) := by
  have hsourceAll := hsource.trans (buffers source).len_le
  have hdestinationAll := hdestination.trans (buffers destination).len_le
  rw [copyBuffer]
  refine get_bind_spec fun state hstate => ?_
  rw [hstate, checkOwner, Outcome.require_of _ hsourceOwner, Fallible.ofExcept_ok_bind, checkOwner,
    Outcome.require_of _ hdestinationOwner, Fallible.ofExcept_ok_bind, WgpuHeader.requireUsage,
    Outcome.require_of _ hsourceUsage, Fallible.ofExcept_ok_bind, WgpuHeader.requireUsage,
    Outcome.require_of _ hdestinationUsage, Fallible.ofExcept_ok_bind,
    checkedRange_of_le hsource
      (Nat.lt_of_le_of_lt (buffers source).len_le (buffers source).length_lt),
    Fallible.ofExcept_ok_bind,
    checkedRange_of_le hdestination
      (Nat.lt_of_le_of_lt (buffers destination).len_le (buffers destination).length_lt),
    Fallible.ofExcept_ok_bind]
  exact copyOfRange_spec hsourceAll hdestinationAll

end WgpuQueue

/-! ### Byte arrays -/

/-- A buffer as a byte array: no padding. -/
structure PlainBuffer extends WgpuHeader where
  bytes : List UInt8

/-- The byte array with a range replaced. -/
def PlainBuffer.write (self : PlainBuffer) (offset : ℕ) (bytes : List UInt8) : PlainBuffer :=
  { self with bytes := writeRegion self.bytes offset bytes }

/-- A write changes exactly its range. -/
theorem PlainBuffer.getElem?_write {self : PlainBuffer} {offset : ℕ} {bytes : List UInt8}
    (h : offset + bytes.length ≤ self.bytes.length) (i : ℕ) :
    (self.write offset bytes).bytes[i]? =
      if offset ≤ i ∧ i < offset + bytes.length then bytes[i - offset]? else self.bytes[i]? :=
  getElem?_writeRegion h i

namespace WgpuBuffer

/-- The byte array that a buffer stands for. -/
def logical (self : WgpuBuffer) : PlainBuffer where
  toWgpuHeader := self.toWgpuHeader
  bytes := self.buffer.take self.len

/-- The bytes behind the logical size. -/
def padding (self : WgpuBuffer) : List UInt8 := self.buffer.drop self.len

theorem logical_overwrite {self : WgpuBuffer} {offset : ℕ} {bytes : List UInt8}
    (h : offset + bytes.length ≤ self.len) :
    (self.overwrite offset bytes).logical = self.logical.write offset bytes := by
  have htake := take_writeRegion self.len_le h
  rw [logical, logical, PlainBuffer.write]
  exact congrArg (PlainBuffer.mk _) htake

theorem padding_overwrite {self : WgpuBuffer} {offset : ℕ} {bytes : List UInt8}
    (h : offset + bytes.length ≤ self.len) :
    (self.overwrite offset bytes).padding = self.padding :=
  drop_writeRegion self.len_le h

theorem region_logical {self : WgpuBuffer} {offset size : ℕ} (h : offset + size ≤ self.len) :
    region self.logical.bytes offset size = region self.buffer offset size :=
  region_take _ h

end WgpuBuffer

/-- A whole number of words has no padding. -/
theorem WgpuBuffer.logical_bytes_eq {self : WgpuBuffer} (h : self.len % 4 = 0) :
    self.logical.bytes = self.buffer := by
  have hlength : self.buffer.length = self.len := by
    have hpadded := self.length_buffer
    have hlen : self.descriptor.sizeBytes % 4 = 0 := h
    rw [paddedSize_eq] at hpadded
    rw [hpadded, WgpuHeader.len]
    omega
  exact List.take_of_length_le hlength.le

/-- A new allocation is an array of zeros. -/
theorem WgpuBuffer.logical_zeroed (token : ℕ) (valid : ValidDesc) :
    (zeroed token valid).logical =
      ⟨⟨valid.toBufferDesc, token⟩, List.replicate valid.sizeBytes 0⟩ := by
  have htake : (List.replicate (paddedSize valid.sizeBytes) (0 : UInt8)).take valid.sizeBytes =
      List.replicate valid.sizeBytes 0 := by
    rw [List.take_replicate, Nat.min_eq_left (le_paddedSize _)]
  exact congrArg (PlainBuffer.mk _) htake

namespace WgpuDevice

variable {device : WgpuDevice} {descriptor : BufferDesc} {granted : Prop}

/-- The device admits a buffer of a size. -/
def Admits (device : WgpuDevice) (sizeBytes : ℕ) : Prop :=
  sizeBytes ≤ device.maxBufferBytes ∧ paddedSize sizeBytes ≤ device.limits.maxBufferSize

instance (device : WgpuDevice) (sizeBytes : ℕ) : Decidable (device.Admits sizeBytes) :=
  inferInstanceAs (Decidable (_ ∧ _))

theorem admitBuffer_of_admits (hsize : descriptor.sizeBytes ≠ 0)
    (husages : descriptor.usages.isEmpty = false) (hmemory : descriptor.memory ≠ .host)
    (h : device.Admits descriptor.sizeBytes) :
    ∃ valid, device.admitBuffer descriptor = .ok valid ∧ valid.toBufferDesc = descriptor := by
  have hnew : BufferDesc.new descriptor.sizeBytes descriptor.usages descriptor.memory =
      .ok descriptor := BufferDesc.new_of_ne descriptor.memory hsize husages
  unfold admitBuffer
  split
  case h_1 e he => exact nomatch hnew.symm.trans he
  case h_2 created hcreated =>
    obtain rfl := BufferDesc.eq_of_new hcreated
    rw [dif_pos h.1, if_neg hmemory, if_neg (Nat.not_lt.2 h.2)]
    exact ⟨_, rfl, rfl⟩

/-- A device refuses what it does not admit. -/
theorem admitBuffer_of_not_admits (hsize : descriptor.sizeBytes ≠ 0)
    (husages : descriptor.usages.isEmpty = false) (hmemory : descriptor.memory ≠ .host)
    (h : ¬ device.Admits descriptor.sizeBytes) :
    ∃ text, device.admitBuffer descriptor = Outcome.raise (.unsupported text) := by
  have hnew : BufferDesc.new descriptor.sizeBytes descriptor.usages descriptor.memory =
      .ok descriptor := BufferDesc.new_of_ne descriptor.memory hsize husages
  unfold admitBuffer
  split
  case h_1 e he => exact nomatch hnew.symm.trans he
  case h_2 created hcreated =>
    obtain rfl := BufferDesc.eq_of_new hcreated
    by_cases hbytes : descriptor.sizeBytes ≤ device.maxBufferBytes
    · have hpadded : device.limits.maxBufferSize < paddedSize descriptor.sizeBytes :=
        Nat.lt_of_not_le fun hle => h ⟨hbytes, hle⟩
      rw [dif_pos hbytes, if_neg hmemory]
      exact ⟨_, if_pos hpadded⟩
    · exact ⟨_, dif_neg hbytes⟩

/-- A buffer that the device admits is created, or the device reports an error. -/
theorem createBuffer_delivers (hsize : descriptor.sizeBytes ≠ 0)
    (husages : descriptor.usages.isEmpty = false) (hmemory : descriptor.memory ≠ .host)
    (h : device.Admits descriptor.sizeBytes) :
    Delivers granted (RefusedAs id) (device.createBuffer descriptor) fun buffer =>
      buffer.toWgpuHeader = ⟨descriptor, device.token⟩ ∧
        buffer.logical.bytes = List.replicate descriptor.sizeBytes 0 := by
  obtain ⟨valid, hadmit, rfl⟩ := admitBuffer_of_admits hsize husages hmemory h
  rw [createBuffer, hadmit, Fallible.ofExcept_ok_bind, allocate]
  refine (popScopes_delivers _).bind fun _ _ => Delivers.pure ⟨rfl, ?_⟩
  rw [WgpuBuffer.logical_zeroed]

private theorem isEmpty_of_contains_copyDst {usages : BufferUsages}
    (h : usages.contains .copyDst = true) : usages.isEmpty = false := by
  cases hempty : usages.isEmpty with
  | false => rfl
  | true =>
    obtain ⟨bits⟩ := usages
    obtain rfl : bits = 0 := beq_iff_eq.1 hempty
    exact absurd h (by decide)

/-- Bytes are written to a new buffer of their size, or something is refused. -/
theorem upload_delivers {bytes : List UInt8} (hsize : descriptor.sizeBytes = bytes.length)
    (hbytes : bytes ≠ []) (husages : descriptor.usages.contains .copyDst = true)
    (hmemory : descriptor.memory ≠ .host) (h : device.Admits bytes.length) :
    Delivers granted (RefusedAs id) (device.upload descriptor bytes) fun buffer =>
      buffer.toWgpuHeader = ⟨descriptor, device.token⟩ ∧ buffer.logical.bytes = bytes := by
  have hempty : descriptor.usages.isEmpty = false :=
    isEmpty_of_contains_copyDst husages
  have hpos := List.length_pos_of_ne_nil hbytes
  rw [← hsize] at h hpos
  rw [upload]
  refine (createBuffer_delivers hpos.ne' hempty hmemory h).bind fun buffer hbuffer => ?_
  obtain ⟨hheader, hzeros⟩ := hbuffer
  have hlen : buffer.len = bytes.length := by
    rw [hheader, WgpuHeader.len, hsize]
  refine (WgpuQueue.onBuffers_delivers (WgpuQueue.writeBuffer_spec (by rw [hheader])
    (by rw [hheader]; exact husages) (by rw [hlen, Nat.zero_add]))).bind fun buffers hbuffers => ?_
  subst hbuffers
  refine Delivers.pure ?_
  rw [Function.update_self, WgpuBuffer.overwrite_header,
    WgpuBuffer.logical_overwrite (by rw [hlen, Nat.zero_add])]
  refine ⟨hheader, writeRegion_zero ?_⟩
  rw [hzeros, List.length_replicate, hsize]

end WgpuDevice

/-- A call of a queue. The buffers of a copy are distinct. -/
inductive WgpuCall (ι : Type)
  | write (buffer : ι) (offsetBytes : ℕ) (bytes : List UInt8)
  | read (buffer : ι) (offsetBytes sizeBytes : ℕ)
  | copy (source : ι) (sourceOffsetBytes : ℕ) (destination : ι)
    (destinationOffsetBytes sizeBytes : ℕ) (distinct : source ≠ destination)

namespace WgpuQueue

variable {ι : Type} [DecidableEq ι] (queue : WgpuQueue)

/-- Run a call on buffers; the result holds the bytes of a read. -/
def call : WgpuCall ι → WgpuM ι (List UInt8)
  | .write buffer offsetBytes bytes => do
    queue.writeBuffer buffer offsetBytes bytes
    pure []
  | .read buffer offsetBytes sizeBytes => queue.readBuffer buffer offsetBytes sizeBytes
  | .copy source sourceOffsetBytes destination destinationOffsetBytes sizeBytes _ => do
    queue.copyBuffer source sourceOffsetBytes destination destinationOffsetBytes sizeBytes
    pure []

/-- Run a call on byte arrays. -/
def plainCall (arrays : ι → PlainBuffer) :
    WgpuCall ι → Outcome PortableError (List UInt8 × (ι → PlainBuffer))
  | .write buffer offset bytes => do
    queue.checkOwner (arrays buffer).toWgpuHeader
    (arrays buffer).requireUsage .copyDst "WGPU buffer write"
    checkedRange (arrays buffer).len offset bytes.length
    pure ([], Function.update arrays buffer ((arrays buffer).write offset bytes))
  | .read buffer offset size => do
    queue.checkOwner (arrays buffer).toWgpuHeader
    (arrays buffer).requireUsage .copySrc "WGPU buffer read"
    checkedRange (arrays buffer).len offset size
    pure (region (arrays buffer).bytes offset size, arrays)
  | .copy source sourceOffset destination destinationOffset size _ => do
    queue.checkOwner (arrays source).toWgpuHeader
    queue.checkOwner (arrays destination).toWgpuHeader
    (arrays source).requireUsage .copySrc "WGPU copy source"
    (arrays destination).requireUsage .copyDst "WGPU copy destination"
    checkedRange (arrays source).len sourceOffset size
    checkedRange (arrays destination).len destinationOffset size
    pure ([], Function.update arrays destination ((arrays destination).write destinationOffset
      (region (arrays source).bytes sourceOffset size)))

/-! ### One call -/

variable {queue} {G : Prop} {buffers : ι → WgpuBuffer} {α : Type}

/-- The byte arrays of buffers. -/
def logical (buffers : ι → WgpuBuffer) : ι → PlainBuffer := fun i => (buffers i).logical

/-- From given buffers, a computation does what is stated of their byte arrays and keeps the
padding, or the host or the device refuses what the stated step does not need, and no buffer
changes. -/
def Refines (G : Prop) (buffers : ι → WgpuBuffer) (m : WgpuM ι α)
    (step : Outcome PortableError (α × (ι → PlainBuffer))) : Prop :=
  Fallible.Spec (Holds G buffers) m
    (fun a state => Holds G state.buffers state ∧ step = .ok (a, logical state.buffers) ∧
      ∀ i, (state.buffers i).padding = (buffers i).padding)
    fun e state => state.buffers = buffers ∧
      (step = .error e ∧ (G → state.toWgpuAnswers.Grants) ∨
        (∃ r, step = .ok r) ∧ RefusedAs id e ∧ ¬ G)

omit [DecidableEq ι] in
/-- A check that both sides make. -/
private theorem Refines.check {x : Outcome PortableError PUnit} {m : WgpuM ι α}
    {step : Outcome PortableError (α × (ι → PlainBuffer))}
    (h : x = .ok ⟨⟩ → Refines G buffers m step) :
    Refines G buffers (.ofExcept x >>= fun _ => m) (x >>= fun _ => step) := by
  cases x with
  | error e => exact fun state hstate => ⟨hstate.1, .inl ⟨rfl, hstate.2⟩⟩
  | ok _ => exact h rfl

/-- An update of one buffer within its logical size. -/
private theorem refines_overwrite {m : WgpuM ι PUnit} {buffer : ι} {offset : ℕ}
    {bytes : List UInt8} (hfit : offset + bytes.length ≤ (buffers buffer).len)
    (h : Fallible.Spec (Holds G buffers) m
      (fun _ => Holds G (Function.update buffers buffer ((buffers buffer).overwrite offset bytes)))
      (Refused G buffers)) :
    Refines G buffers (m >>= fun _ => pure ([] : List UInt8))
      (.ok ([], Function.update (logical buffers) buffer
        ((logical buffers buffer).write offset bytes))) := by
  refine Fallible.Spec.bind (h.conseq (fun _ hs => hs) (fun _ _ hs => hs)
    fun e state hs => ⟨hs.2.1, .inr ⟨⟨_, rfl⟩, hs.1, hs.2.2⟩⟩) fun _ =>
      Fallible.Spec.pure _ fun state hstate => ?_
  obtain ⟨hbuffers, hgrants⟩ := hstate
  refine ⟨⟨rfl, hgrants⟩, ?_, fun i => ?_⟩
  · have hlogical : logical state.buffers = Function.update (logical buffers) buffer
        ((logical buffers buffer).write offset bytes) := by
      funext i
      rw [hbuffers, logical]
      by_cases hi : i = buffer
      · rw [hi, Function.update_self, Function.update_self]
        exact WgpuBuffer.logical_overwrite hfit
      · rw [Function.update_of_ne hi, Function.update_of_ne hi]
        rfl
    rw [hlogical]
  · rw [hbuffers]
    by_cases hi : i = buffer
    · rw [hi, Function.update_self]
      exact WgpuBuffer.padding_overwrite hfit
    · rw [Function.update_of_ne hi]

omit [DecidableEq ι] in
private theorem refines_get {f : WgpuState ι → WgpuM ι α}
    {step : Outcome PortableError (α × (ι → PlainBuffer))}
    (h : ∀ state, state.buffers = buffers → Refines G buffers (f state) step) :
    Refines G buffers (Fallible.get >>= f) step :=
  get_bind_spec h

private theorem checkedRange_le {total offset size : ℕ}
    (h : checkedRange total offset size = .ok ⟨⟩) : offset + size ≤ total := by
  unfold checkedRange at h
  cases hadd : checkedAdd offset size with
  | none =>
    rw [hadd] at h
    exact nomatch h
  | some stop =>
    rw [hadd] at h
    obtain ⟨rfl, -⟩ := checkedAdd_eq_some_iff.1 hadd
    exact Outcome.require_eq_ok_iff.1 h

/-- A call refines the same call on byte arrays. -/
theorem call_refines (queue : WgpuQueue) (c : WgpuCall ι) :
    Refines G buffers (queue.call c) (queue.plainCall (logical buffers) c) := by
  cases c with
  | write buffer offset bytes =>
    simp only [call, writeBuffer, bind_assoc]
    refine refines_get fun state hstate => ?_
    rw [hstate]
    refine Refines.check fun _ => Refines.check fun _ => Refines.check fun hrange => ?_
    have hfit := checkedRange_le hrange
    exact refines_overwrite hfit (writeRaw_spec (hfit.trans (buffers buffer).len_le))
  | read buffer offset size =>
    simp only [call, readBuffer]
    refine refines_get fun state hstate => ?_
    rw [hstate]
    refine Refines.check fun _ => Refines.check fun _ => Refines.check fun hrange => ?_
    have hfit := checkedRange_le hrange
    refine (readRaw_spec (hfit.trans (buffers buffer).len_le)).conseq (fun _ hs => hs) ?_
      fun e state hs => ⟨hs.2.1, .inr ⟨⟨_, rfl⟩, hs.1, hs.2.2⟩⟩
    rintro _ state ⟨rfl, hbuffers, hgrants⟩
    refine ⟨⟨rfl, hgrants⟩, ?_, fun i => by rw [hbuffers]⟩
    rw [hbuffers, ← WgpuBuffer.region_logical hfit]
    rfl
  | copy source sourceOffset destination destinationOffset size distinct =>
    simp only [call, copyBuffer, bind_assoc]
    refine refines_get fun state hstate => ?_
    rw [hstate]
    refine Refines.check fun _ => Refines.check fun _ => Refines.check fun _ =>
      Refines.check fun _ => Refines.check fun hsource => Refines.check fun hdestination => ?_
    have hsourceFit := checkedRange_le hsource
    have hdestinationFit := checkedRange_le hdestination
    have hsourceAll := hsourceFit.trans (buffers source).len_le
    have hdestinationAll := hdestinationFit.trans (buffers destination).len_le
    have hlength := length_region_of_le hsourceAll
    have hregion : region (logical buffers source).bytes sourceOffset size =
        region (buffers source).buffer sourceOffset size := WgpuBuffer.region_logical hsourceFit
    rw [hregion]
    exact refines_overwrite (by rwa [hlength]) (copyOfRange_spec hsourceAll hdestinationAll)

/-- What one call does from a state, read off its refinement. -/
private theorem call_cases (queue : WgpuQueue) (c : WgpuCall ι) (state : WgpuState ι) :
    (∃ bytes state', (queue.call c).run state = (.ok bytes, state') ∧
      queue.plainCall (logical state.buffers) c = .ok (bytes, logical state'.buffers) ∧
      (state.toWgpuAnswers.Grants → state'.toWgpuAnswers.Grants) ∧
      ∀ i, (state'.buffers i).padding = (state.buffers i).padding) ∨
    (∃ e state', (queue.call c).run state = (.error e, state') ∧
      queue.plainCall (logical state.buffers) c = .error e ∧
      (state.toWgpuAnswers.Grants → state'.toWgpuAnswers.Grants) ∧ state'.buffers = state.buffers) ∨
    ∃ e state', (queue.call c).run state = (.error e, state') ∧ RefusedAs id e ∧
      (∃ r, queue.plainCall (logical state.buffers) c = .ok r) ∧
      ¬ state.toWgpuAnswers.Grants ∧ state'.buffers = state.buffers := by
  have hrun := call_refines (G := state.toWgpuAnswers.Grants) queue c state ⟨rfl, id⟩
  rcases hresult : (queue.call c).run state with ⟨e | bytes, state'⟩
  · rw [hresult] at hrun
    obtain ⟨hbuffers, ⟨hplain, hgrants⟩ | ⟨hplain, he, hrefused⟩⟩ := hrun
    · exact .inr (.inl ⟨e, state', rfl, hplain, hgrants, hbuffers⟩)
    · exact .inr (.inr ⟨e, state', rfl, he, hplain, hrefused, hbuffers⟩)
  · rw [hresult] at hrun
    obtain ⟨⟨-, hgrants⟩, hplain, hpadding⟩ := hrun
    exact .inl ⟨bytes, state', rfl, hplain, hgrants, hpadding⟩

/-! ### Sequences of calls -/

variable (queue)

/-- Run calls one after the other, whatever their results. -/
def runCalls : List (WgpuCall ι) → WgpuState ι →
    List (Outcome PortableError (List UInt8)) × WgpuState ι
  | [], state => ([], state)
  | c :: calls, state =>
    let (result, state) := (queue.call c).run state
    let (results, state) := runCalls calls state
    (result :: results, state)

/-- Run calls on byte arrays; a call that is rejected changes nothing. -/
def plainRun : List (WgpuCall ι) → (ι → PlainBuffer) →
    List (Outcome PortableError (List UInt8)) × (ι → PlainBuffer)
  | [], arrays => ([], arrays)
  | c :: calls, arrays =>
    match queue.plainCall arrays c with
    | .ok (bytes, arrays) =>
      let (results, arrays) := plainRun calls arrays
      (.ok bytes :: results, arrays)
    | .error e =>
      let (results, arrays) := plainRun calls arrays
      (.error e :: results, arrays)

/-- The results that calls may have on byte arrays. Each call is served or rejected as on byte
arrays; one that would be served may also be refused by the host or the device, and then changes
nothing. -/
inductive Follows : (ι → PlainBuffer) → List (WgpuCall ι) →
    List (Outcome PortableError (List UInt8)) → (ι → PlainBuffer) → Prop
  | nil (arrays : ι → PlainBuffer) : Follows arrays [] [] arrays
  | served {arrays arrays' final : ι → PlainBuffer} {c : WgpuCall ι} {bytes : List UInt8}
    {calls : List (WgpuCall ι)} {results : List (Outcome PortableError (List UInt8))}
    (h : queue.plainCall arrays c = .ok (bytes, arrays'))
    (hrest : Follows arrays' calls results final) :
    Follows arrays (c :: calls) (.ok bytes :: results) final
  | rejected {arrays final : ι → PlainBuffer} {c : WgpuCall ι} {e : Stop PortableError}
    {calls : List (WgpuCall ι)} {results : List (Outcome PortableError (List UInt8))}
    (h : queue.plainCall arrays c = .error e) (hrest : Follows arrays calls results final) :
    Follows arrays (c :: calls) (.error e :: results) final
  | refused {arrays final : ι → PlainBuffer} {c : WgpuCall ι} {e : Stop PortableError}
    {r : List UInt8 × (ι → PlainBuffer)} {calls : List (WgpuCall ι)}
    {results : List (Outcome PortableError (List UInt8))} (he : RefusedAs id e)
    (h : queue.plainCall arrays c = .ok r) (hrest : Follows arrays calls results final) :
    Follows arrays (c :: calls) (.error e :: results) final

/-- A sequence of calls keeps the padding of each buffer and has results that it may have on byte
arrays; they are those on byte arrays where nothing is refused. -/
theorem runCalls_follows (calls : List (WgpuCall ι)) (state : WgpuState ι) :
    queue.Follows (logical state.buffers) calls (queue.runCalls calls state).1
        (logical (queue.runCalls calls state).2.buffers) ∧
      (∀ i, ((queue.runCalls calls state).2.buffers i).padding = (state.buffers i).padding) ∧
      (state.toWgpuAnswers.Grants → ((queue.runCalls calls state).1,
        logical (queue.runCalls calls state).2.buffers) =
          queue.plainRun calls (logical state.buffers)) := by
  induction calls generalizing state with
  | nil => exact ⟨.nil _, fun i => rfl, fun _ => rfl⟩
  | cons c calls ih =>
    rcases call_cases queue c state with ⟨bytes, state', hrun, hplain, hgrants, hpadding⟩ |
      ⟨e, state', hrun, hplain, hgrants, hbuffers⟩ | ⟨e, state', hrun, he, ⟨r, hplain⟩, hrefused,
        hbuffers⟩
    · obtain ⟨hfollows, hkept, hexact⟩ := ih state'
      simp only [runCalls, hrun]
      refine ⟨.served hplain hfollows, fun i => (hkept i).trans (hpadding i), fun h => ?_⟩
      rw [plainRun, hplain]
      simp only [← hexact (hgrants h)]
    · obtain ⟨hfollows, hkept, hexact⟩ := ih state'
      rw [hbuffers] at hfollows hkept hexact
      simp only [runCalls, hrun]
      refine ⟨.rejected hplain hfollows, hkept, fun h => ?_⟩
      rw [plainRun, hplain]
      simp only [← hexact (hgrants h)]
    · obtain ⟨hfollows, hkept, -⟩ := ih state'
      rw [hbuffers] at hfollows hkept
      simp only [runCalls, hrun]
      exact ⟨.refused he hplain hfollows, hkept, fun h => absurd h hrefused⟩

private theorem checkedRange_safe (total offset size : ℕ) :
    Outcome.Safe (checkedRange total offset size) := by
  unfold checkedRange
  split
  · exact Outcome.Safe.require _ _
  · exact nofun

/-- A call on byte arrays does not panic. -/
theorem plainCall_safe (arrays : ι → PlainBuffer) (c : WgpuCall ι) :
    Outcome.Safe (queue.plainCall arrays c) := by
  cases c with
  | write buffer offset bytes =>
    exact (Outcome.Safe.require _ _).bind fun _ _ => (Outcome.Safe.require _ _).bind fun _ _ =>
      (checkedRange_safe _ _ _).bind fun _ _ => Outcome.Safe.pure _
  | read buffer offset size =>
    exact (Outcome.Safe.require _ _).bind fun _ _ => (Outcome.Safe.require _ _).bind fun _ _ =>
      (checkedRange_safe _ _ _).bind fun _ _ => Outcome.Safe.pure _
  | copy source sourceOffset destination destinationOffset size distinct =>
    exact (Outcome.Safe.require _ _).bind fun _ _ => (Outcome.Safe.require _ _).bind fun _ _ =>
      (Outcome.Safe.require _ _).bind fun _ _ => (Outcome.Safe.require _ _).bind fun _ _ =>
      (checkedRange_safe _ _ _).bind fun _ _ => (checkedRange_safe _ _ _).bind fun _ _ =>
      Outcome.Safe.pure _

variable {queue} in
private theorem Follows.safe {arrays final : ι → PlainBuffer} {calls : List (WgpuCall ι)}
    {results : List (Outcome PortableError (List UInt8))}
    (h : queue.Follows arrays calls results final) : ∀ r ∈ results, Outcome.Safe r := by
  induction h with
  | nil => exact nofun
  | served _ _ ih => exact List.forall_mem_cons.2 ⟨nofun, ih⟩
  | rejected hplain _ ih =>
    refine List.forall_mem_cons.2 ⟨fun hpanic => ?_, ih⟩
    exact queue.plainCall_safe _ _ (hplain.trans (congrArg _ (Except.error.inj hpanic)))
  | refused he _ _ ih =>
    obtain ⟨error, -, rfl⟩ := he
    exact List.forall_mem_cons.2 ⟨nofun, ih⟩

/-- WGPU buffers are byte arrays.

* A sequence of calls has results and leaves bytes that it may have on byte arrays, where each call
  is served or rejected, or is refused by the host or the device and changes nothing.
* Where the host grants all memory and the device reports no error the results and the bytes are
  those on byte arrays.
* No call panics: each copy that is submitted is aligned and inside the padded allocations.
* The padding of a buffer never changes, and a call that returns an error changes no buffer.
* A copy of an aligned range has the same effect on the device and through the host.
* A write to a byte array changes exactly its range. -/
theorem wgpuBuffers_byteArrays (queue : WgpuQueue) (calls : List (WgpuCall ι))
    (state : WgpuState ι) :
    (queue.Follows (logical state.buffers) calls (queue.runCalls calls state).1
      (logical (queue.runCalls calls state).2.buffers)) ∧
    (state.toWgpuAnswers.Grants → ((queue.runCalls calls state).1,
      logical (queue.runCalls calls state).2.buffers) =
        queue.plainRun calls (logical state.buffers)) ∧
    (∀ r ∈ (queue.runCalls calls state).1, Outcome.Safe r) ∧
    (∀ i, ((queue.runCalls calls state).2.buffers i).padding = (state.buffers i).padding) ∧
    (∀ c e state', (queue.call c).run state = (.error e, state') →
      state'.buffers = state.buffers) ∧
    (∀ source sourceOffset destination destinationOffset size,
      sourceOffset % copyBufferAlignment = 0 → destinationOffset % copyBufferAlignment = 0 →
      size % copyBufferAlignment = 0 → sourceOffset + size ≤ (state.buffers source).len →
      destinationOffset + size ≤ (state.buffers destination).len → state.toWgpuAnswers.Grants →
        ∃ buffers answers answers',
          (copyBufferToBuffer source sourceOffset destination destinationOffset size).run state =
            (.ok ⟨⟩, ⟨answers, buffers⟩) ∧
          (copyThroughHost source sourceOffset destination destinationOffset size).run state =
            (.ok ⟨⟩, ⟨answers', buffers⟩)) ∧
    ∀ (array : PlainBuffer) (offset : ℕ) (bytes : List UInt8),
      offset + bytes.length ≤ array.bytes.length → ∀ i, (array.write offset bytes).bytes[i]? =
        if offset ≤ i ∧ i < offset + bytes.length then bytes[i - offset]? else array.bytes[i]? := by
  obtain ⟨hfollows, hpadding, hexact⟩ := queue.runCalls_follows calls state
  refine ⟨hfollows, hexact, hfollows.safe, hpadding, fun c e state' hrun => ?_,
    fun source sourceOffset destination destinationOffset size h₁ h₂ h₃ hsource hdestination
      hgrants => ?_, fun array offset bytes h i => PlainBuffer.getElem?_write h i⟩
  · rcases call_cases queue c state with ⟨bytes, _, hok, -⟩ | ⟨_, _, herror, -, -, hkept⟩ |
      ⟨_, _, herror, -, -, -, hkept⟩
    · exact nomatch hok.symm.trans hrun
    · rw [herror] at hrun
      exact (Prod.mk.inj hrun).2 ▸ hkept
    · rw [herror] at hrun
      exact (Prod.mk.inj hrun).2 ▸ hkept
  · have hsourceAll := hsource.trans (state.buffers source).len_le
    have hdestinationAll := hdestination.trans (state.buffers destination).len_le
    have hdevice := copyBufferToBuffer_spec (G := True) ⟨h₁, h₂, h₃⟩ hsourceAll
      hdestinationAll state ⟨rfl, fun _ => hgrants⟩
    have hstaged := copyThroughHost_spec (G := True) hsourceAll hdestinationAll state
      ⟨rfl, fun _ => hgrants⟩
    rcases hrun : (copyBufferToBuffer source sourceOffset destination destinationOffset size).run
      state with ⟨e | _, _, _⟩
    · rw [hrun] at hdevice
      exact absurd trivial hdevice.2.2
    rcases hrun' : (copyThroughHost source sourceOffset destination destinationOffset size).run
      state with ⟨e | _, _, _⟩
    · rw [hrun'] at hstaged
      exact absurd trivial hstaged.2.2
    rw [hrun] at hdevice
    rw [hrun'] at hstaged
    obtain ⟨rfl, -⟩ := hdevice
    obtain ⟨rfl, -⟩ := hstaged
    exact ⟨_, _, _, rfl, rfl⟩

end WgpuQueue

end NNIS
