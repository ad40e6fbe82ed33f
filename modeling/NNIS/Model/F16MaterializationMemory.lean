import NNIS.Model.Weights
import NNIS.Semantics.Fallible
import NNIS.Semantics.Replies
import NNIS.Sequence.RunningSum
import Mathlib.Algebra.BigOperators.Group.List.Basic

/-!
# Memory accounting of the F16 materialization

While the weights are narrowed to F16, `nnis-model/src/f16_materialization_memory.rs` follows the
live bytes: counters, their peaks, and a log of events. The counters are updated before the total
is checked and the event is logged, so a call that fails on the total or on the length of the log
leaves counters that the log does not account for.

## Main definitions

* `F16WeightMaterializationTracker` with `allocateResident`, `allocateTemporary`,
  `releaseTemporary`, `finish`, `failureEvidence`.
* `F16WeightMaterializationTracker.Exact`, `F16WeightMaterializationTracker.Replays` — counters,
  peaks and events agree with the log.
* `F16WeightMaterializationTracker.CanRecord` — a call that passes its own checks is logged.

## Main results

* `F16WeightMaterializationTracker.perform_eq` — what a call does.
* `F16WeightMaterializationTracker.replays_of_eachCall` — every run whose accepted calls are
  logged.
* `F16WeightMaterializationTracker.not_replays_of_overflow` — a run with a call that is not.
-/

set_option autoImplicit false

namespace NNIS

/-! ### Events and evidence -/

inductive F16WeightMaterializationEventKindV1
  | allocateResident | allocateTemporary | releaseTemporary
  deriving DecidableEq

/-- A logged allocation or release with the counters after it. -/
structure F16WeightMaterializationEventV1 where
  sequence : ℕ
  logicalName : String
  kind : F16WeightMaterializationEventKindV1
  bytes : ℕ
  liveF16AllocationBytes : ℕ
  liveTemporaryF16AllocationBytes : ℕ
  scopedOwnedAllocationBytes : ℕ
  deriving DecidableEq

/-- Evidence of a successful materialization under an execution plan. -/
structure F16WeightMaterializationMemoryEvidenceV1 (Plan : Type) where
  schemaVersion : ℕ
  executionPlan : Plan
  sourceWeightAllocations : WeightAllocationSummaryV1
  steadyStateF16WeightAllocations : WeightAllocationSummaryV1
  peakLiveF16AllocationBytes : ℕ
  peakLiveTemporaryF16AllocationBytes : ℕ
  peakScopedOwnedAllocationBytes : ℕ
  finalScopedOwnedAllocationBytes : ℕ
  events : List F16WeightMaterializationEventV1

/-- Evidence of a failed materialization. -/
structure F16WeightMaterializationFailureEvidenceV1 (Plan : Type) where
  schemaVersion : ℕ
  executionPlan : Plan
  sourceWeightAllocations : WeightAllocationSummaryV1
  failureOperation : Option String
  failureDriverCode : Option ℤ
  failureMessage : String
  liveF16AllocationBytesAtFailureDetection : ℕ
  liveTemporaryF16AllocationBytesAtFailureDetection : ℕ
  scopedOwnedAllocationBytesAtFailureDetection : ℕ
  peakLiveF16AllocationBytes : ℕ
  peakLiveTemporaryF16AllocationBytes : ℕ
  peakScopedOwnedAllocationBytes : ℕ
  events : List F16WeightMaterializationEventV1

/-! ### The tracker -/

/-- Live bytes, their peaks and the log. -/
structure F16WeightMaterializationTracker where
  sourceOwnedAllocationBytes : ℕ
  liveF16AllocationBytes : ℕ
  liveTemporaryF16AllocationBytes : ℕ
  peakLiveF16AllocationBytes : ℕ
  peakLiveTemporaryF16AllocationBytes : ℕ
  peakScopedOwnedAllocationBytes : ℕ
  events : List F16WeightMaterializationEventV1
  deriving DecidableEq

namespace F16WeightMaterializationTracker

/-- A tracker over a source of the given size. -/
def new (sourceOwnedAllocationBytes : ℕ) : Except NnisError F16WeightMaterializationTracker :=
  if sourceOwnedAllocationBytes = 0 then
    .error (.invalidInput "F16 materialization requires a non-empty live source weight graph")
  else .ok
    { sourceOwnedAllocationBytes
      liveF16AllocationBytes := 0
      liveTemporaryF16AllocationBytes := 0
      peakLiveF16AllocationBytes := 0
      peakLiveTemporaryF16AllocationBytes := 0
      peakScopedOwnedAllocationBytes := sourceOwnedAllocationBytes
      events := [] }

/-- Raise the peaks to the counters. -/
def raisePeaks (tracker : F16WeightMaterializationTracker) (scopedBytes : ℕ) :
    F16WeightMaterializationTracker :=
  { tracker with
    peakLiveF16AllocationBytes :=
      max tracker.peakLiveF16AllocationBytes tracker.liveF16AllocationBytes
    peakLiveTemporaryF16AllocationBytes :=
      max tracker.peakLiveTemporaryF16AllocationBytes tracker.liveTemporaryF16AllocationBytes
    peakScopedOwnedAllocationBytes := max tracker.peakScopedOwnedAllocationBytes scopedBytes }

/-- Log an event with the counters. -/
def pushEvent (tracker : F16WeightMaterializationTracker) (logicalName : String)
    (kind : F16WeightMaterializationEventKindV1) (bytes scopedBytes : ℕ) :
    F16WeightMaterializationTracker :=
  { tracker with
    events := tracker.events ++
      [{ sequence := tracker.events.length
         logicalName
         kind
         bytes
         liveF16AllocationBytes := tracker.liveF16AllocationBytes
         liveTemporaryF16AllocationBytes := tracker.liveTemporaryF16AllocationBytes
         scopedOwnedAllocationBytes := scopedBytes }] }

/-- Check the total, raise the peaks and log an event. -/
def record (logicalName : String) (kind : F16WeightMaterializationEventKindV1) (bytes : ℕ) :
    Fallible F16WeightMaterializationTracker NnisError PUnit := do
  let tracker ← .get
  let scopedBytes ← .ofExcept (orInvalid
    "scoped materialization bytes overflow u64"
    (checkedAdd tracker.sourceOwnedAllocationBytes tracker.liveF16AllocationBytes))
  .modify fun tracker => tracker.raisePeaks scopedBytes
  if tracker.events.length < 2 ^ 32 then
    .modify fun tracker => tracker.pushEvent logicalName kind bytes scopedBytes
  else .fail (.invalidInput "F16 materialization event count exceeds u32")

/-- Count temporary bytes, if an allocation is temporary. -/
def addTemporary (temporary : Bool) (bytes : ℕ) :
    Fallible F16WeightMaterializationTracker NnisError PUnit :=
  if temporary then do
    let tracker ← .get
    let live ← .ofExcept (orInvalid "live temporary F16 bytes overflow u64"
      (checkedAdd tracker.liveTemporaryF16AllocationBytes bytes))
    .modify fun tracker => { tracker with liveTemporaryF16AllocationBytes := live }
  else pure ⟨⟩

/-- Count an allocation and log it; `debug` is the quoted form of a text. -/
def allocate (debug : String → String) (logicalName : String) (bytes : ℕ)
    (kind : F16WeightMaterializationEventKindV1) (temporary : Bool) :
    Fallible F16WeightMaterializationTracker NnisError PUnit :=
  if bytes = 0 then
    .fail (.invalidInput s!"F16 materialization allocation {debug logicalName} has zero bytes")
  else do
    let tracker ← .get
    let live ← .ofExcept (orInvalid "live F16 materialization bytes overflow u64"
      (checkedAdd tracker.liveF16AllocationBytes bytes))
    .modify fun tracker => { tracker with liveF16AllocationBytes := live }
    addTemporary temporary bytes
    record logicalName kind bytes

def allocateResident (debug : String → String) (logicalName : String) (bytes : ℕ) :
    Fallible F16WeightMaterializationTracker NnisError PUnit :=
  allocate debug logicalName bytes .allocateResident false

def allocateTemporary (debug : String → String) (logicalName : String) (bytes : ℕ) :
    Fallible F16WeightMaterializationTracker NnisError PUnit :=
  allocate debug logicalName bytes .allocateTemporary true

/-- Count the release of temporary bytes and log it. -/
def releaseTemporary (debug : String → String) (logicalName : String) (bytes : ℕ) :
    Fallible F16WeightMaterializationTracker NnisError PUnit :=
  if bytes = 0 then
    .fail (.invalidInput s!"F16 materialization release {debug logicalName} has zero bytes")
  else do
    let tracker ← .get
    let temporary ← .ofExcept (orInvalid "temporary F16 release exceeds live bytes"
      (checkedSub tracker.liveTemporaryF16AllocationBytes bytes))
    .modify fun tracker => { tracker with liveTemporaryF16AllocationBytes := temporary }
    let live ← .ofExcept (orInvalid "F16 release exceeds live materialization bytes"
      (checkedSub tracker.liveF16AllocationBytes bytes))
    .modify fun tracker => { tracker with liveF16AllocationBytes := live }
    record logicalName .releaseTemporary bytes

/-- The evidence of a failure, described by its operation, its driver code and its text. -/
def failureEvidence {Plan : Type} (tracker : F16WeightMaterializationTracker)
    (executionPlan : Plan) (sourceWeightAllocations : WeightAllocationSummaryV1)
    (op : String) (driverCode : Option ℤ) (message : String) :
    Except NnisError (F16WeightMaterializationFailureEvidenceV1 Plan) :=
  if sourceWeightAllocations.ownedDeviceAllocationBytes ≠ tracker.sourceOwnedAllocationBytes then
    .error (.invalidInput
      "source weight summary changed during failed F16 materialization accounting")
  else do
    let scopedBytes ← orInvalid
      "failed F16 materialization scoped allocation bytes overflow u64"
      (checkedAdd tracker.sourceOwnedAllocationBytes tracker.liveF16AllocationBytes)
    .ok
      { schemaVersion := 1
        executionPlan
        sourceWeightAllocations
        failureOperation := if op = "" then none else some op
        failureDriverCode := driverCode
        failureMessage := message
        liveF16AllocationBytesAtFailureDetection := tracker.liveF16AllocationBytes
        liveTemporaryF16AllocationBytesAtFailureDetection :=
          tracker.liveTemporaryF16AllocationBytes
        scopedOwnedAllocationBytesAtFailureDetection := scopedBytes
        peakLiveF16AllocationBytes := tracker.peakLiveF16AllocationBytes
        peakLiveTemporaryF16AllocationBytes := tracker.peakLiveTemporaryF16AllocationBytes
        peakScopedOwnedAllocationBytes := tracker.peakScopedOwnedAllocationBytes
        events := tracker.events }

/-- The evidence of a success. -/
def finish {Plan : Type} (tracker : F16WeightMaterializationTracker) (executionPlan : Plan)
    (sourceWeightAllocations steadyStateF16WeightAllocations : WeightAllocationSummaryV1) :
    Except NnisError (F16WeightMaterializationMemoryEvidenceV1 Plan) :=
  if sourceWeightAllocations.ownedDeviceAllocationBytes ≠ tracker.sourceOwnedAllocationBytes then
    .error (.invalidInput "source weight summary changed during F16 materialization accounting")
  else if tracker.liveTemporaryF16AllocationBytes ≠ 0 then
    .error (.invalidInput
      "F16 materialization completed with temporary allocations still accounted live")
  else if tracker.liveF16AllocationBytes ≠
      steadyStateF16WeightAllocations.ownedDeviceAllocationBytes then
    .error (.invalidInput "tracked final F16 bytes disagree with resident F16 weight summary")
  else do
    let finalScoped ← orInvalid "final scoped materialization bytes overflow u64"
      (checkedAdd tracker.sourceOwnedAllocationBytes tracker.liveF16AllocationBytes)
    if tracker.peakScopedOwnedAllocationBytes < finalScoped then
      .error (.invalidInput
        "F16 materialization peak is below final scoped allocation bytes")
    else
      .ok {
        schemaVersion := 1
        executionPlan
        sourceWeightAllocations
        steadyStateF16WeightAllocations
        peakLiveF16AllocationBytes := tracker.peakLiveF16AllocationBytes
        peakLiveTemporaryF16AllocationBytes := tracker.peakLiveTemporaryF16AllocationBytes
        peakScopedOwnedAllocationBytes := tracker.peakScopedOwnedAllocationBytes
        finalScopedOwnedAllocationBytes := finalScoped
        events := tracker.events }

/-! ### Calls -/

/-- A call on a tracker. -/
inductive Call
  | allocateResident (logicalName : String) (bytes : ℕ)
  | allocateTemporary (logicalName : String) (bytes : ℕ)
  | releaseTemporary (logicalName : String) (bytes : ℕ)

namespace Call

def logicalName : Call → String
  | allocateResident name _ | allocateTemporary name _ | releaseTemporary name _ => name

def bytes : Call → ℕ
  | allocateResident _ bytes | allocateTemporary _ bytes | releaseTemporary _ bytes => bytes

def kind : Call → F16WeightMaterializationEventKindV1
  | allocateResident _ _ => .allocateResident
  | allocateTemporary _ _ => .allocateTemporary
  | releaseTemporary _ _ => .releaseTemporary

end Call

/-- Perform a call. -/
def perform (debug : String → String) (call : Call) (tracker : F16WeightMaterializationTracker) :
    Except NnisError PUnit × F16WeightMaterializationTracker :=
  match call with
  | .allocateResident name bytes => (allocateResident debug name bytes).run tracker
  | .allocateTemporary name bytes => (allocateTemporary debug name bytes).run tracker
  | .releaseTemporary name bytes => (releaseTemporary debug name bytes).run tracker

/-- The counters of live and of temporary bytes after a call that passes its own checks. -/
def counters (tracker : F16WeightMaterializationTracker) (call : Call) : Option (ℕ × ℕ) :=
  let live := tracker.liveF16AllocationBytes
  let temporary := tracker.liveTemporaryF16AllocationBytes
  if call.bytes = 0 then none
  else match call with
    | .allocateResident _ bytes =>
      if live + bytes < wordLimit then some (live + bytes, temporary) else none
    | .allocateTemporary _ bytes =>
      if live + bytes < wordLimit then some (live + bytes, temporary + bytes) else none
    | .releaseTemporary _ bytes =>
      if bytes ≤ temporary then some (live - bytes, temporary - bytes) else none

theorem counters_allocateResident (tracker : F16WeightMaterializationTracker) (name : String)
    (bytes : ℕ) : tracker.counters (.allocateResident name bytes) =
      if bytes = 0 then none
      else if tracker.liveF16AllocationBytes + bytes < wordLimit then
        some (tracker.liveF16AllocationBytes + bytes, tracker.liveTemporaryF16AllocationBytes)
      else none := rfl

theorem counters_allocateTemporary (tracker : F16WeightMaterializationTracker) (name : String)
    (bytes : ℕ) : tracker.counters (.allocateTemporary name bytes) =
      if bytes = 0 then none
      else if tracker.liveF16AllocationBytes + bytes < wordLimit then
        some (tracker.liveF16AllocationBytes + bytes,
          tracker.liveTemporaryF16AllocationBytes + bytes)
      else none := rfl

theorem counters_releaseTemporary (tracker : F16WeightMaterializationTracker) (name : String)
    (bytes : ℕ) : tracker.counters (.releaseTemporary name bytes) =
      if bytes = 0 then none
      else if bytes ≤ tracker.liveTemporaryF16AllocationBytes then
        some (tracker.liveF16AllocationBytes - bytes,
          tracker.liveTemporaryF16AllocationBytes - bytes)
      else none := rfl

/-- A call that passes its own checks is logged: its total fits and the log has room. -/
def CanRecord (call : Call) (tracker : F16WeightMaterializationTracker) : Prop :=
  ∀ live temporary, tracker.counters call = some (live, temporary) →
    tracker.sourceOwnedAllocationBytes + live < wordLimit ∧ tracker.events.length < 2 ^ 32

/-! ### What a call does -/

private theorem orInvalid_some {α : Type} (a : α) (what : String) :
    orInvalid what (some a) = .ok a := rfl

/-- A logged event. -/
theorem run_record {tracker : F16WeightMaterializationTracker} {scopedBytes : ℕ}
    (hscoped : tracker.sourceOwnedAllocationBytes + tracker.liveF16AllocationBytes = scopedBytes)
    (hfit : scopedBytes < wordLimit) (hroom : tracker.events.length < 2 ^ 32) (name : String)
    (kind : F16WeightMaterializationEventKindV1) (bytes : ℕ) :
    (record name kind bytes).run tracker =
      (.ok ⟨⟩, (tracker.raisePeaks scopedBytes).pushEvent name kind bytes scopedBytes) := by
  rw [record, Fallible.run_bind_ok (Fallible.run_get tracker),
    checkedAdd_of_lt (hscoped ▸ hfit), hscoped, orInvalid_some, Fallible.ofExcept_ok_bind,
    Fallible.run_bind_ok (Fallible.run_modify _ tracker), if_pos hroom]
  rfl

/-- A call fails before it counts anything, or it counts its bytes and logs them. -/
theorem perform_eq (debug : String → String) {tracker : F16WeightMaterializationTracker}
    (h : tracker.liveTemporaryF16AllocationBytes ≤ tracker.liveF16AllocationBytes) (call : Call) :
    match tracker.counters call with
    | none => ∃ e, perform debug call tracker = (.error e, tracker)
    | some (live, temporary) => perform debug call tracker =
        (record call.logicalName call.kind call.bytes).run { tracker with
          liveF16AllocationBytes := live
          liveTemporaryF16AllocationBytes := temporary } := by
  cases call with
  | allocateResident name bytes =>
    rw [counters_allocateResident, perform, allocateResident, allocate]
    by_cases hzero : bytes = 0
    · rw [if_pos hzero, if_pos hzero]
      exact ⟨_, rfl⟩
    · rw [if_neg hzero, if_neg hzero, Fallible.run_bind_ok (Fallible.run_get tracker), checkedAdd]
      split_ifs
      · rfl
      · exact ⟨_, rfl⟩
  | allocateTemporary name bytes =>
    rw [counters_allocateTemporary, perform, allocateTemporary, allocate]
    by_cases hzero : bytes = 0
    · rw [if_pos hzero, if_pos hzero]
      exact ⟨_, rfl⟩
    · rw [if_neg hzero, if_neg hzero, Fallible.run_bind_ok (Fallible.run_get tracker), checkedAdd]
      split_ifs with hlive
      · -- The temporary bytes are part of the live bytes, so their counter fits too.
        have htemporary : tracker.liveTemporaryF16AllocationBytes + bytes < wordLimit :=
          Nat.lt_of_le_of_lt (Nat.add_le_add_right h bytes) hlive
        rw [orInvalid_some, Fallible.ofExcept_ok_bind,
          Fallible.run_bind_ok (Fallible.run_modify _ tracker), addTemporary, if_pos rfl,
          bind_assoc, Fallible.run_bind_ok (Fallible.run_get _), checkedAdd_of_lt htemporary]
        rfl
      · exact ⟨_, rfl⟩
  | releaseTemporary name bytes =>
    rw [counters_releaseTemporary, perform, releaseTemporary]
    by_cases hzero : bytes = 0
    · rw [if_pos hzero, if_pos hzero]
      exact ⟨_, rfl⟩
    · rw [if_neg hzero, if_neg hzero, Fallible.run_bind_ok (Fallible.run_get tracker)]
      by_cases hbytes : bytes ≤ tracker.liveTemporaryF16AllocationBytes
      · rw [if_pos hbytes, checkedSub_of_le hbytes, checkedSub_of_le (hbytes.trans h)]
        rfl
      · rw [if_neg hbytes, checkedSub, if_neg hbytes]
        exact ⟨_, rfl⟩

/-! ### The log -/

end F16WeightMaterializationTracker

namespace F16WeightMaterializationEventV1

/-- What an event adds to the live bytes. -/
def liveChange (event : F16WeightMaterializationEventV1) : ℤ :=
  match event.kind with
  | .allocateResident => event.bytes
  | .allocateTemporary => event.bytes
  | .releaseTemporary => -event.bytes

/-- What an event adds to the temporary bytes. -/
def temporaryChange (event : F16WeightMaterializationEventV1) : ℤ :=
  match event.kind with
  | .allocateResident => 0
  | .allocateTemporary => event.bytes
  | .releaseTemporary => -event.bytes

end F16WeightMaterializationEventV1

/-- Allocated bytes minus released bytes of a log. -/
def liveBytes (events : List F16WeightMaterializationEventV1) : ℤ :=
  (events.map F16WeightMaterializationEventV1.liveChange).sum

/-- Temporarily allocated bytes minus released bytes of a log. -/
def temporaryBytes (events : List F16WeightMaterializationEventV1) : ℤ :=
  (events.map F16WeightMaterializationEventV1.temporaryChange).sum

theorem liveBytes_concat (events : List F16WeightMaterializationEventV1)
    (event : F16WeightMaterializationEventV1) :
    liveBytes (events ++ [event]) = liveBytes events + event.liveChange := by
  rw [liveBytes, List.map_append, List.sum_append, List.map_singleton, List.sum_singleton,
    liveBytes]

theorem temporaryBytes_concat (events : List F16WeightMaterializationEventV1)
    (event : F16WeightMaterializationEventV1) :
    temporaryBytes (events ++ [event]) = temporaryBytes events + event.temporaryChange := by
  rw [temporaryBytes, List.map_append, List.sum_append, List.map_singleton, List.sum_singleton,
    temporaryBytes]

/-- An event says what the log says up to it. -/
structure F16WeightMaterializationEventV1.ExactAfter (event : F16WeightMaterializationEventV1)
    (source : ℕ) (upTo : List F16WeightMaterializationEventV1) : Prop where
  sequence : event.sequence + 1 = upTo.length
  live : event.liveF16AllocationBytes = liveBytes upTo
  temporary : event.liveTemporaryF16AllocationBytes = temporaryBytes upTo
  scopedBytes : event.scopedOwnedAllocationBytes = source + liveBytes upTo
  temporary_le : event.liveTemporaryF16AllocationBytes ≤ event.liveF16AllocationBytes

namespace F16WeightMaterializationTracker

/-- The counters, the peaks and the events of a tracker are those of its log. -/
structure Exact (tracker : F16WeightMaterializationTracker) : Prop where
  live : tracker.liveF16AllocationBytes = liveBytes tracker.events
  temporary : tracker.liveTemporaryF16AllocationBytes = temporaryBytes tracker.events
  temporary_le : tracker.liveTemporaryF16AllocationBytes ≤ tracker.liveF16AllocationBytes
  events : ∀ (i : ℕ) event, tracker.events[i]? = some event →
    F16WeightMaterializationEventV1.ExactAfter event tracker.sourceOwnedAllocationBytes
      (tracker.events.take (i + 1))
  peakLive : IsPeak liveBytes tracker.events tracker.peakLiveF16AllocationBytes
  peakTemporary : IsPeak temporaryBytes tracker.events
    tracker.peakLiveTemporaryF16AllocationBytes
  peakScoped : IsPeak (fun l => tracker.sourceOwnedAllocationBytes + liveBytes l) tracker.events
    tracker.peakScopedOwnedAllocationBytes

theorem exact_new {source : ℕ} {tracker : F16WeightMaterializationTracker}
    (h : new source = .ok tracker) :
    tracker.Exact ∧ tracker.sourceOwnedAllocationBytes = source := by
  rw [new] at h
  split_ifs at h
  obtain rfl := Except.ok.inj h
  exact ⟨⟨rfl, rfl, Nat.le_refl 0, nofun, isPeak_nil, isPeak_nil,
    by simpa [liveBytes] using
      @isPeak_nil _ _ _ fun l : List F16WeightMaterializationEventV1 => source + liveBytes l⟩, rfl⟩

/-- Counters with an event of their change logged stay exact. -/
private theorem Exact.push {tracker : F16WeightMaterializationTracker} (h : tracker.Exact)
    {live temporary scopedBytes bytes : ℕ} {name : String}
    {kind : F16WeightMaterializationEventKindV1}
    {event : F16WeightMaterializationEventV1}
    (hevent : event = ⟨tracker.events.length, name, kind, bytes, live, temporary, scopedBytes⟩)
    (hlive : (live : ℤ) = tracker.liveF16AllocationBytes + event.liveChange)
    (htemporary : (temporary : ℤ) =
      tracker.liveTemporaryF16AllocationBytes + event.temporaryChange)
    (hle : temporary ≤ live)
    (hscoped : tracker.sourceOwnedAllocationBytes + live = scopedBytes) :
    (({ tracker with
      liveF16AllocationBytes := live
      liveTemporaryF16AllocationBytes := temporary } : F16WeightMaterializationTracker).raisePeaks
        scopedBytes |>.pushEvent name kind bytes scopedBytes).Exact := by
  have hlog : liveBytes (tracker.events ++ [event]) = live := by
    rw [liveBytes_concat, ← h.live, hlive]
  have htemporaryLog : temporaryBytes (tracker.events ++ [event]) = temporary := by
    rw [temporaryBytes_concat, ← h.temporary, htemporary]
  have hscopedLog : (tracker.sourceOwnedAllocationBytes + liveBytes (tracker.events ++ [event]) : ℤ)
      = scopedBytes := by
    rw [hlog, ← hscoped, Nat.cast_add]
  have hpushed : tracker.events ++
      [⟨tracker.events.length, name, kind, bytes, live, temporary, scopedBytes⟩] =
        tracker.events ++ [event] := by rw [hevent]
  rw [raisePeaks, pushEvent]
  dsimp only
  rw [hpushed]
  refine
    { live := hlog.symm
      temporary := htemporaryLog.symm
      temporary_le := hle
      events := fun i e hget => ?_
      peakLive := ?_
      peakTemporary := ?_
      peakScoped := ?_ }
  · dsimp only at hget ⊢
    rcases Nat.lt_trichotomy i tracker.events.length with hlt | rfl | hgt
    · rw [List.getElem?_append_left hlt] at hget
      rw [List.take_append_of_le_length hlt]
      exact h.events i e hget
    · rw [List.getElem?_concat_length] at hget
      obtain rfl := Option.some.inj hget
      have hlength : (tracker.events ++ [event]).length = tracker.events.length + 1 :=
        List.length_append
      rw [List.take_of_length_le (Nat.le_of_eq hlength)]
      refine ⟨?_, ?_, ?_, ?_, ?_⟩
      · rw [hlength, hevent]
      · rw [hlog, hevent]
      · rw [htemporaryLog, hevent]
      · rw [hscopedLog, hevent]
      · rw [hevent]
        exact hle
    · rw [List.getElem?_eq_none (by rw [List.length_append]; exact hgt)] at hget
      exact absurd hget nofun
  · dsimp only
    rw [Nat.cast_max, ← hlog]
    exact h.peakLive.concat event
  · dsimp only
    rw [Nat.cast_max, ← htemporaryLog]
    exact h.peakTemporary.concat event
  · dsimp only
    rw [Nat.cast_max, ← hscopedLog]
    exact h.peakScoped.concat event

/-! ### Runs -/

/-- The counters of a call that passes its own checks change as its event says. -/
private theorem change_of_counters {tracker : F16WeightMaterializationTracker} {call : Call}
    {live temporary : ℕ} (h : tracker.counters call = some (live, temporary))
    (hle : tracker.liveTemporaryF16AllocationBytes ≤ tracker.liveF16AllocationBytes)
    {event : F16WeightMaterializationEventV1} (hkind : event.kind = call.kind)
    (hbytes : event.bytes = call.bytes) :
    (live : ℤ) = tracker.liveF16AllocationBytes + event.liveChange ∧
      (temporary : ℤ) = tracker.liveTemporaryF16AllocationBytes + event.temporaryChange ∧
      temporary ≤ live := by
  rw [F16WeightMaterializationEventV1.liveChange, F16WeightMaterializationEventV1.temporaryChange,
    hkind, hbytes]
  cases call with
  | allocateResident name bytes =>
    rw [counters_allocateResident] at h
    split_ifs at h
    obtain ⟨rfl, rfl⟩ := Prod.mk.inj (Option.some.inj h)
    dsimp only [Call.kind, Call.bytes]
    omega
  | allocateTemporary name bytes =>
    rw [counters_allocateTemporary] at h
    split_ifs at h
    obtain ⟨rfl, rfl⟩ := Prod.mk.inj (Option.some.inj h)
    dsimp only [Call.kind, Call.bytes]
    omega
  | releaseTemporary name bytes =>
    rw [counters_releaseTemporary] at h
    split_ifs at h with hzero hbytes
    obtain ⟨rfl, rfl⟩ := Prod.mk.inj (Option.some.inj h)
    dsimp only [Call.kind, Call.bytes]
    omega

/-- A call that is logged if it passes its own checks keeps a tracker exact. -/
theorem Exact.perform (debug : String → String) {tracker : F16WeightMaterializationTracker}
    (h : tracker.Exact) {call : Call} (hrecord : CanRecord call tracker) :
    (perform debug call tracker).2.Exact ∧
      (F16WeightMaterializationTracker.perform debug call tracker).2.sourceOwnedAllocationBytes =
        tracker.sourceOwnedAllocationBytes := by
  have hperform := perform_eq debug h.temporary_le call
  cases hcounters : tracker.counters call with
  | none =>
    rw [hcounters] at hperform
    obtain ⟨e, hperform⟩ := hperform
    rw [hperform]
    exact ⟨h, rfl⟩
  | some after =>
    obtain ⟨live, temporary⟩ := after
    rw [hcounters] at hperform
    dsimp only at hperform
    obtain ⟨hfit, hroom⟩ := hrecord live temporary hcounters
    rw [hperform, @run_record { tracker with
      liveF16AllocationBytes := live
      liveTemporaryF16AllocationBytes := temporary } _ rfl hfit hroom]
    obtain ⟨hlive, htemporary, hle⟩ := @change_of_counters _ _ _ _ hcounters h.temporary_le
      ⟨tracker.events.length, call.logicalName, call.kind, call.bytes, live, temporary,
        tracker.sourceOwnedAllocationBytes + live⟩ rfl rfl
    exact ⟨h.push rfl hlive htemporary hle rfl, rfl⟩

/-- A call with zero bytes is refused and changes nothing. -/
theorem perform_of_zero (debug : String → String) (tracker : F16WeightMaterializationTracker)
    {call : Call} (h : call.bytes = 0) :
    ∃ e, perform debug call tracker = (.error e, tracker) := by
  cases call with
  | allocateResident name bytes =>
    rw [perform, allocateResident, allocate, if_pos (show bytes = 0 from h)]
    exact ⟨_, rfl⟩
  | allocateTemporary name bytes =>
    rw [perform, allocateTemporary, allocate, if_pos (show bytes = 0 from h)]
    exact ⟨_, rfl⟩
  | releaseTemporary name bytes =>
    rw [perform, releaseTemporary, if_pos (show bytes = 0 from h)]
    exact ⟨_, rfl⟩

/-- A release of more bytes than are live is refused and changes nothing. -/
theorem perform_of_overRelease (debug : String → String)
    (tracker : F16WeightMaterializationTracker) (name : String) {bytes : ℕ}
    (h : tracker.liveTemporaryF16AllocationBytes < bytes) :
    ∃ e, perform debug (.releaseTemporary name bytes) tracker = (.error e, tracker) := by
  rw [perform, releaseTemporary, if_neg (Nat.ne_of_gt (Nat.zero_lt_of_lt h)),
    Fallible.run_bind_ok (Fallible.run_get tracker), checkedSub, if_neg (Nat.not_le.2 h)]
  exact ⟨_, rfl⟩

/-- What a success says about the tracker. -/
theorem finish_eq_ok {Plan : Type} {tracker : F16WeightMaterializationTracker}
    {executionPlan : Plan} {source steadyState : WeightAllocationSummaryV1}
    {evidence : F16WeightMaterializationMemoryEvidenceV1 Plan}
    (h : tracker.finish executionPlan source steadyState = .ok evidence) :
    tracker.liveTemporaryF16AllocationBytes = 0 ∧
      tracker.liveF16AllocationBytes = steadyState.ownedDeviceAllocationBytes ∧
      evidence.peakLiveF16AllocationBytes = tracker.peakLiveF16AllocationBytes ∧
      evidence.peakLiveTemporaryF16AllocationBytes =
        tracker.peakLiveTemporaryF16AllocationBytes ∧
      evidence.peakScopedOwnedAllocationBytes = tracker.peakScopedOwnedAllocationBytes ∧
      evidence.events = tracker.events := by
  rw [finish, Except.ite_error_eq_ok_iff, Except.ite_error_eq_ok_iff,
    Except.ite_error_eq_ok_iff] at h
  obtain ⟨-, htemporary, hlive, hrun⟩ := h
  obtain ⟨finalScoped, -, hrun⟩ := Except.bind_eq_ok_iff.1 hrun
  obtain ⟨-, hrun⟩ := Except.ite_error_eq_ok_iff.1 hrun
  obtain rfl := Except.ok.inj hrun
  exact ⟨not_not.1 htemporary, not_not.1 hlive, rfl, rfl, rfl, rfl⟩

/-- What the evidence of a failure says about the tracker. -/
theorem failureEvidence_eq_ok {Plan : Type} {tracker : F16WeightMaterializationTracker}
    {executionPlan : Plan} {source : WeightAllocationSummaryV1} {op message : String}
    {driverCode : Option ℤ} {evidence : F16WeightMaterializationFailureEvidenceV1 Plan}
    (h : tracker.failureEvidence executionPlan source op driverCode message = .ok evidence) :
    evidence.liveF16AllocationBytesAtFailureDetection = tracker.liveF16AllocationBytes ∧
      evidence.liveTemporaryF16AllocationBytesAtFailureDetection =
        tracker.liveTemporaryF16AllocationBytes ∧
      evidence.peakLiveF16AllocationBytes = tracker.peakLiveF16AllocationBytes ∧
      evidence.peakLiveTemporaryF16AllocationBytes =
        tracker.peakLiveTemporaryF16AllocationBytes ∧
      evidence.peakScopedOwnedAllocationBytes = tracker.peakScopedOwnedAllocationBytes ∧
      evidence.events = tracker.events := by
  rw [failureEvidence, Except.ite_error_eq_ok_iff] at h
  obtain ⟨scopedBytes, -, hrun⟩ := Except.bind_eq_ok_iff.1 h.2
  obtain rfl := Except.ok.inj hrun
  exact ⟨rfl, rfl, rfl, rfl, rfl, rfl⟩

/-- The accounting of a tracker replays its log: counters, events and peaks are those of the log,
evidence reports them, a success leaves no temporary bytes and the bytes of the resident summary,
and a call refused for zero bytes or an excessive release changes nothing. -/
structure Replays (debug : String → String) (tracker : F16WeightMaterializationTracker) : Prop where
  exact : tracker.Exact
  finish : ∀ {Plan : Type} (executionPlan : Plan) source steadyState evidence,
    tracker.finish executionPlan source steadyState = .ok evidence →
      temporaryBytes tracker.events = 0 ∧
      liveBytes tracker.events = steadyState.ownedDeviceAllocationBytes ∧
      evidence.events = tracker.events ∧
      IsPeak liveBytes tracker.events evidence.peakLiveF16AllocationBytes ∧
      IsPeak temporaryBytes tracker.events evidence.peakLiveTemporaryF16AllocationBytes ∧
      IsPeak (fun l => tracker.sourceOwnedAllocationBytes + liveBytes l) tracker.events
        evidence.peakScopedOwnedAllocationBytes
  failure : ∀ {Plan : Type} (executionPlan : Plan) source op driverCode message evidence,
    tracker.failureEvidence executionPlan source op driverCode message = .ok evidence →
      evidence.liveTemporaryF16AllocationBytesAtFailureDetection =
        temporaryBytes tracker.events ∧
      evidence.liveF16AllocationBytesAtFailureDetection = liveBytes tracker.events ∧
      evidence.events = tracker.events ∧
      IsPeak liveBytes tracker.events evidence.peakLiveF16AllocationBytes ∧
      IsPeak temporaryBytes tracker.events evidence.peakLiveTemporaryF16AllocationBytes ∧
      IsPeak (fun l => tracker.sourceOwnedAllocationBytes + liveBytes l) tracker.events
        evidence.peakScopedOwnedAllocationBytes
  zero : ∀ call : Call, call.bytes = 0 → ∃ e, perform debug call tracker = (.error e, tracker)
  overRelease : ∀ name bytes, tracker.liveTemporaryF16AllocationBytes < bytes →
    ∃ e, perform debug (.releaseTemporary name bytes) tracker = (.error e, tracker)

theorem Exact.replays (debug : String → String) {tracker : F16WeightMaterializationTracker}
    (h : tracker.Exact) : tracker.Replays debug where
  exact := h
  finish := by
    intro Plan executionPlan source steadyState evidence hfinish
    obtain ⟨htemporary, hlive, hpeakLive, hpeakTemporary, hpeakScoped, hevents⟩ :=
      finish_eq_ok hfinish
    rw [← h.temporary, ← h.live, htemporary, hlive, hpeakLive, hpeakTemporary, hpeakScoped]
    exact ⟨rfl, rfl, hevents, h.peakLive, h.peakTemporary, h.peakScoped⟩
  failure := by
    intro Plan executionPlan source op driverCode message evidence hfailure
    obtain ⟨hlive, htemporary, hpeakLive, hpeakTemporary, hpeakScoped, hevents⟩ :=
      failureEvidence_eq_ok hfailure
    rw [htemporary, hlive, hpeakLive, hpeakTemporary, hpeakScoped]
    exact ⟨h.temporary, h.live, hevents, h.peakLive, h.peakTemporary, h.peakScoped⟩
  zero := fun _ => tracker.perform_of_zero debug
  overRelease := fun name _ => tracker.perform_of_overRelease debug name

/-- A run from a new tracker whose calls are logged if they pass their own checks replays its log
in every state it reaches. -/
theorem replays_of_eachCall (debug : String → String) {source : ℕ}
    {tracker : F16WeightMaterializationTracker} (hnew : new source = .ok tracker)
    {calls : List Call} (hcalls : EachCall CanRecord (perform debug) calls tracker)
    {done : List Call} (hdone : done <+: calls) :
    (replies (perform debug) done tracker).2.Replays debug ∧
      (replies (perform debug) done tracker).2.sourceOwnedAllocationBytes = source := by
  obtain ⟨rest, rfl⟩ := hdone
  obtain ⟨hexact, hsource⟩ := hcalls.of_append.invariant
    (fun call t hrecord (ht : t.Exact ∧ t.sourceOwnedAllocationBytes = source) =>
      ⟨(ht.1.perform debug hrecord).1, (ht.1.perform debug hrecord).2.trans ht.2⟩) (exact_new hnew)
  exact ⟨hexact.replays debug, hsource⟩

theorem canRecord_of_counters {tracker : F16WeightMaterializationTracker} {call : Call}
    {live temporary : ℕ} (h : tracker.counters call = some (live, temporary))
    (hfit : tracker.sourceOwnedAllocationBytes + live < wordLimit)
    (hroom : tracker.events.length < 2 ^ 32) : CanRecord call tracker := by
  intro live' temporary' h'
  obtain ⟨rfl, rfl⟩ := Prod.mk.inj (Option.some.inj (h.symm.trans h'))
  exact ⟨hfit, hroom⟩

/-- A run of the materialization of a transposed projection. -/
theorem replays_of_eachCall_projection :
    ∃ tracker, new 100 = .ok tracker ∧
      (replies (perform String.quote) [.allocateTemporary "proj.kn_temporary" 30,
        .allocateResident "proj" 30, .releaseTemporary "proj.kn_temporary" 30] tracker).2.Replays
          String.quote := by
  have hnew : new 100 = .ok ⟨100, 0, 0, 0, 0, 100, []⟩ := rfl
  refine ⟨_, hnew, (replays_of_eachCall String.quote hnew ?_ List.prefix_rfl).1⟩
  exact ⟨canRecord_of_counters rfl (by decide) (by decide),
    canRecord_of_counters rfl (by decide) (by decide),
    canRecord_of_counters rfl (by decide) (by decide), trivial⟩

/-- An allocation whose total does not fit is counted but not logged, and a later event shows it. -/
theorem not_replays_of_overflow :
    ∃ tracker, new 10 = .ok tracker ∧
      ¬ (replies (perform String.quote) [.allocateTemporary "w" (2 ^ 64 - 5),
        .releaseTemporary "w" 100] tracker).2.Replays String.quote := by
  refine ⟨⟨10, 0, 0, 0, 0, 10, []⟩, rfl, fun h => ?_⟩
  have hevent := (h.exact.events 0 _ rfl).live
  exact absurd hevent (by decide)

end F16WeightMaterializationTracker

end NNIS
