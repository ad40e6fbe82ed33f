import NNIS.Core.ReplayState
import NNIS.Memory.Region
import NNIS.Numeric.Binary

/-!
# CPU replay sources

The dense sources of `nnis-cpu/src/replay.rs`. Row `i` of a payload holds the values of logical
position `start + i`. A source answers a request for a window of it with the rows of the window, one
after the other, and a window of another source with the mismatch. So adjacent windows concatenate
to their union, and the most recent positions are the last rows.

## Main definitions

* `CpuReplayError`, `CpuReplaySourceV1`, `CpuReplaySourceV1.new`.
* `CpuReplaySourceV1.replayWindow`, `CpuReplaySourceV1.replayRecentWindow`,
  `CpuReplaySourceV1.window`.
* `CpuReplaySourceV1.row` — the values of a position.
* `ReplayWindowRequestV1.recentU64` — the recent window with 64-bit subtractions.
* `CpuReplaySourceV1.Exact` — what a source answers.

## Main results

* `CpuReplaySourceV1.payload_spec` — what the validation says of a payload.
* `CpuReplaySourceV1.replayWindow_eq_ok` — a window of a source is replayed exactly.
* `CpuReplaySourceV1.window_eq_flatMap`, `CpuReplaySourceV1.window_append`,
  `CpuReplaySourceV1.window_recent` — the values of a window.
* `ReplayWindowRequestV1.recentU64_eq` — no subtraction wraps.
* `CpuReplaySourceV1.exact` — every source is exact.
-/

set_option autoImplicit false

namespace NNIS

/-- Fail-closed CPU replay errors. -/
inductive CpuReplayError
  | identity (error : ReplayIdentityError)
  | zeroRowWidth
  | payloadLengthMismatch (expected actual : ℕ)
  | nonFiniteValue (index : ℕ)
  | hostIndexOverflow
  deriving DecidableEq

/-- The text of an error. -/
def CpuReplayError.text : CpuReplayError → String
  | identity error => s!"replay identity: {error.text}"
  | zeroRowWidth => "CPU replay row width must be non-zero"
  | payloadLengthMismatch expected actual =>
    s!"CPU replay payload has {actual} values, expected {expected}"
  | nonFiniteValue index => s!"CPU replay payload value {index} is not finite"
  | hostIndexOverflow => "CPU replay logical range does not fit host indexing"

/-- A logical count as a host index. -/
def hostIndex (value : ℕ) : Outcome CpuReplayError ℕ :=
  .okOr (if value < wordLimit then some value else none) .hostIndexOverflow

/-- Check a payload against an identity. -/
def validateReplayPayload (identity : ReplaySourceIdentityV1) (rowWidth : ℕ) (rows : List F32) :
    Outcome CpuReplayError PUnit := do
  .require (rowWidth ≠ 0) .zeroRowWidth
  let items ← .wrap .identity identity.logicalItems
  let items ← hostIndex items
  let expected ← .okOr (checkedMul items rowWidth) .hostIndexOverflow
  .require (rows.length = expected) (.payloadLengthMismatch expected rows.length)
  match rows.findIdx? fun value => !value.isFinite with
  | some index => .raise (.nonFiniteValue index)
  | none => pure ⟨⟩

/-- Immutable dense CPU replay source bound to one exact source identity. -/
structure CpuReplaySourceV1 where
  identity : ReplaySourceIdentityV1
  rowWidth : ℕ
  rows : List F32
  valid : validateReplayPayload identity rowWidth rows = .ok ⟨⟩
  deriving DecidableEq

namespace CpuReplaySourceV1

/-- Bind a dense finite row-major payload to an exact source identity. -/
def new (identity : ReplaySourceIdentityV1) (rowWidth : ℕ) (rows : List F32) :
    Outcome CpuReplayError CpuReplaySourceV1 :=
  match h : validateReplayPayload identity rowWidth rows with
  | .error e => .error e
  | .ok _ => .ok ⟨identity, rowWidth, rows, h⟩

variable (source : CpuReplaySourceV1)

/-- Copy the rows of a replay window. -/
def replayWindow (request : ReplayWindowRequestV1) : Outcome CpuReplayError (List F32) := do
  .require (source.identity = request.source) (.identity .sourceIdentityMismatch)
  let firstRow ← .okOr
    (checkedSub request.logicalStartPosition source.identity.logicalStartPosition)
    (.identity .positionOverflow)
  let firstRow ← hostIndex firstRow
  let rowCount ← .wrap .identity request.logicalItems
  let rowCount ← hostIndex rowCount
  let start ← .okOr (checkedMul firstRow source.rowWidth) .hostIndexOverflow
  let len ← .okOr (checkedMul rowCount source.rowWidth) .hostIndexOverflow
  let stop ← .okOr (checkedAdd start len) .hostIndexOverflow
  .okOr (if start ≤ stop ∧ stop ≤ source.rows.length then
    some (region source.rows start (stop - start)) else none) .hostIndexOverflow

/-- Resolve and copy the most recent positions. -/
def replayRecentWindow (windowItems : ℕ) :
    Outcome CpuReplayError (ReplayWindowRequestV1 × List F32) := do
  let request ← .wrap .identity (ReplayWindowRequestV1.recent source.identity windowItems)
  let rows ← source.replayWindow request
  pure (request, rows)

/-! ### What a window holds -/

/-- The values of a range of positions. -/
def window (start stop : ℕ) : List F32 :=
  region source.rows ((start - source.identity.logicalStartPosition) * source.rowWidth)
    ((stop - start + 1) * source.rowWidth)

private theorem logicalItems_eq_ok_iff {start stop items : ℕ} :
    logicalItems start stop = .ok items ↔
      start ≤ stop ∧ stop - start + 1 = items ∧ items < wordLimit := by
  simp only [logicalItems, Outcome.okOr_eq_ok_iff, Option.bind_eq_some_iff,
    checkedSub_eq_some_iff, checkedAdd_eq_some_iff]
  constructor
  · rintro ⟨_, ⟨hle, rfl⟩, hitems, hlt⟩
    exact ⟨hle, hitems, hlt⟩
  · rintro ⟨hle, hitems, hlt⟩
    exact ⟨_, ⟨hle, rfl⟩, hitems, hlt⟩

private theorem hostIndex_eq_ok_iff {value index : ℕ} :
    hostIndex value = .ok index ↔ value = index ∧ value < wordLimit := by
  rw [hostIndex, Outcome.okOr_eq_ok_iff]
  split_ifs with h
  · exact ⟨fun he => ⟨Option.some.inj he, h⟩, fun he => congrArg some he.1⟩
  · exact ⟨nofun, fun he => absurd he.2 h⟩

/-- The payload of a source has a row for each position, and its sizes fit 64 bits. -/
theorem payload_spec :
    0 < source.rowWidth ∧
      source.identity.logicalEndPosition - source.identity.logicalStartPosition + 1 < wordLimit ∧
      source.rows.length = (source.identity.logicalEndPosition -
        source.identity.logicalStartPosition + 1) * source.rowWidth ∧
      source.rows.length < wordLimit := by
  have h := source.valid
  simp only [validateReplayPayload, ReplaySourceIdentityV1.logicalItems, Except.bind_eq_ok_iff,
    Outcome.require_eq_ok_iff, Outcome.okOr_eq_ok_iff, Outcome.wrap_eq_ok_iff,
    checkedMul_eq_some_iff, logicalItems_eq_ok_iff, hostIndex_eq_ok_iff] at h
  obtain ⟨_, hwidth, _, ⟨-, rfl, hitems⟩, _, ⟨rfl, -⟩, _, ⟨rfl, hlt⟩, _, hlength, -⟩ := h
  exact ⟨Nat.pos_of_ne_zero hwidth, hitems, hlength, hlength ▸ hlt⟩

/-- A window of a source is replayed exactly. -/
theorem replayWindow_eq_ok (request : ReplayWindowRequestV1)
    (h : request.source = source.identity) :
    source.replayWindow request =
      .ok (source.window request.logicalStartPosition request.logicalEndPosition) := by
  obtain ⟨hwidth, hitems, hlength, hlt⟩ := source.payload_spec
  have hstart := request.source_start_le
  have hstop := request.end_le_source
  have hrange := request.start_le_end
  have hend := source.identity.end_lt
  rw [h] at hstart hstop
  have hfirst : request.logicalStartPosition - source.identity.logicalStartPosition <
      wordLimit := by omega
  have hcount : request.logicalEndPosition - request.logicalStartPosition + 1 < wordLimit := by
    omega
  have hfit : (request.logicalStartPosition - source.identity.logicalStartPosition) *
      source.rowWidth + (request.logicalEndPosition - request.logicalStartPosition + 1) *
        source.rowWidth ≤ source.rows.length := by
    rw [hlength, ← Nat.add_mul]
    exact Nat.mul_le_mul_right _ (by omega)
  simp only [replayWindow, ReplayWindowRequestV1.logicalItems, Except.bind_eq_ok_iff,
    Outcome.require_eq_ok_iff, Outcome.okOr_eq_ok_iff, Outcome.wrap_eq_ok_iff,
    checkedSub_eq_some_iff, checkedMul_eq_some_iff, checkedAdd_eq_some_iff,
    logicalItems_eq_ok_iff, hostIndex_eq_ok_iff]
  refine ⟨⟨⟩, h.symm, _, ⟨hstart, rfl⟩, _, ⟨rfl, hfirst⟩, _, ⟨hrange, rfl, hcount⟩, _,
    ⟨rfl, hcount⟩, _, ⟨rfl, by omega⟩, _, ⟨rfl, by omega⟩, _, ⟨rfl, by omega⟩, ?_⟩
  rw [if_pos ⟨Nat.le_add_right _ _, hfit⟩, Nat.add_sub_cancel_left, window]

end CpuReplaySourceV1

/-! ### Recent windows in 64 bits -/

/-- A subtraction of 64-bit integers, which panics where it would wrap. -/
def subU64 {ε : Type} (a b : ℕ) : Outcome ε ℕ := if b ≤ a then .ok (a - b) else .error .panic

theorem subU64_of_le {ε : Type} {a b : ℕ} (h : b ≤ a) :
    (subU64 a b : Outcome ε ℕ) = .ok (a - b) := if_pos h

namespace ReplayWindowRequestV1

/-- The window of the most recent positions of a source, with subtractions that panic where they
would wrap. -/
def recentU64 (source : ReplaySourceIdentityV1) (windowItems : ℕ) :
    Outcome ReplayIdentityError ReplayWindowRequestV1 := do
  .require (windowItems ≠ 0) .zeroWindowItems
  let span ← subU64 source.logicalEndPosition source.logicalStartPosition
  let windowSpan ← subU64 windowItems 1
  if span < windowSpan then
    let available ← source.logicalItems
    .raise (.recentWindowExceedsSource available windowItems)
  else
    let logicalStartPosition ← subU64 source.logicalEndPosition windowSpan
    new source logicalStartPosition source.logicalEndPosition

/-- No subtraction wraps. -/
theorem recentU64_eq (source : ReplaySourceIdentityV1) (windowItems : ℕ) :
    recentU64 source windowItems = recent source windowItems := by
  rw [recentU64, recent]
  by_cases hzero : windowItems ≠ 0
  · simp only [Outcome.require_of _ hzero, Except.ok_bind, subU64_of_le source.start_le_end,
      subU64_of_le (Nat.one_le_iff_ne_zero.2 hzero)]
    split_ifs with hspan
    · rfl
    · rw [subU64_of_le (by omega), Except.ok_bind]
  · rw [Outcome.require_of_not _ hzero]
    rfl

/-- More positions than the source has are refused with both counts. -/
theorem recent_exceeds {source : ReplaySourceIdentityV1} {windowItems : ℕ}
    (hitems : source.logicalEndPosition - source.logicalStartPosition + 1 < wordLimit)
    (h : source.logicalEndPosition - source.logicalStartPosition + 1 < windowItems) :
    recent source windowItems = .error (.error (.recentWindowExceedsSource
      (source.logicalEndPosition - source.logicalStartPosition + 1) windowItems)) := by
  have hcount : source.logicalItems =
      .ok (source.logicalEndPosition - source.logicalStartPosition + 1) := by
    rw [ReplaySourceIdentityV1.logicalItems, NNIS.logicalItems,
      checkedSub_of_le source.start_le_end, Option.bind_some, checkedAdd_of_lt hitems]
    rfl
  rw [recent, Outcome.require_of _ (by omega), Except.ok_bind]
  dsimp only
  rw [if_pos (by omega), hcount]
  rfl

end ReplayWindowRequestV1

namespace CpuReplaySourceV1

variable (source : CpuReplaySourceV1)

/-! ### Rows -/

/-- The values of a logical position. -/
def row (position : ℕ) : List F32 :=
  region source.rows ((position - source.identity.logicalStartPosition) * source.rowWidth)
    source.rowWidth

/-- The rows of a number of positions. -/
def rowsFrom (start count : ℕ) : List F32 := (List.range' start count).flatMap source.row

theorem rowsFrom_eq_region {start : ℕ} (h : source.identity.logicalStartPosition ≤ start)
    (count : ℕ) :
    source.rowsFrom start count =
      region source.rows ((start - source.identity.logicalStartPosition) * source.rowWidth)
        (count * source.rowWidth) := by
  rw [← flatMap_region, rowsFrom, List.range'_eq_map_range, List.flatMap_map]
  refine List.flatMap_congr fun i _ => ?_
  rw [row, ← Nat.add_mul, Nat.sub_add_comm h]

/-- A window holds the rows of its positions. -/
theorem window_eq_flatMap {start : ℕ} (h : source.identity.logicalStartPosition ≤ start)
    (stop : ℕ) : source.window start stop = source.rowsFrom start (stop - start + 1) :=
  (source.rowsFrom_eq_region h _).symm

/-- Adjacent windows concatenate to their union. -/
theorem window_append {start middle stop : ℕ}
    (h : source.identity.logicalStartPosition ≤ start) (hmiddle : start ≤ middle)
    (hstop : middle + 1 ≤ stop) :
    source.window start middle ++ source.window (middle + 1) stop = source.window start stop := by
  rw [source.window_eq_flatMap h, source.window_eq_flatMap h,
    source.window_eq_flatMap (by omega), rowsFrom, rowsFrom, rowsFrom, ← List.flatMap_append]
  have hnext : start + (middle - start + 1) = middle + 1 := by omega
  have hcount : middle - start + 1 + (stop - (middle + 1) + 1) = stop - start + 1 := by omega
  rw [← hnext, List.range'_append_1, hnext, hcount]

/-- The window of the most recent positions holds the last values. -/
theorem window_recent {windowItems : ℕ} (hzero : windowItems ≠ 0)
    (hle : windowItems ≤
      source.identity.logicalEndPosition - source.identity.logicalStartPosition + 1) :
    source.window (source.identity.logicalEndPosition - (windowItems - 1))
        source.identity.logicalEndPosition =
      source.rows.drop (source.rows.length - windowItems * source.rowWidth) := by
  have hrange := source.identity.start_le_end
  obtain ⟨-, -, hlength, -⟩ := source.payload_spec
  have hcount : source.identity.logicalEndPosition -
      (source.identity.logicalEndPosition - (windowItems - 1)) + 1 = windowItems := by omega
  have hfirst : (source.identity.logicalEndPosition - (windowItems - 1) -
      source.identity.logicalStartPosition) * source.rowWidth =
        source.rows.length - windowItems * source.rowWidth := by
    rw [hlength, ← Nat.sub_mul]
    congr 1
    omega
  rw [window, hcount, hfirst, region]
  refine List.take_of_length_le ?_
  rw [List.length_drop]
  omega

/-! ### Answers -/

/-- What a source answers to every request. -/
structure Exact : Prop where
  /-- A window of the source is replayed with exactly its rows. -/
  window : ∀ start stop request,
    ReplayWindowRequestV1.new source.identity start stop = .ok request →
      source.replayWindow request = .ok (source.rowsFrom start (stop - start + 1))
  /-- A window of another source is refused. -/
  mismatch : ∀ request : ReplayWindowRequestV1, request.source ≠ source.identity →
    source.replayWindow request = .error (.error (.identity .sourceIdentityMismatch))
  /-- No request leaves the host's indices. -/
  no_overflow : ∀ request, source.replayWindow request ≠ .error (.error .hostIndexOverflow)
  /-- Adjacent windows concatenate to their union. -/
  adjacent : ∀ start middle stop first second union,
    ReplayWindowRequestV1.new source.identity start middle = .ok first →
      ReplayWindowRequestV1.new source.identity (middle + 1) stop = .ok second →
      ReplayWindowRequestV1.new source.identity start stop = .ok union →
      ∃ as bs, source.replayWindow first = .ok as ∧ source.replayWindow second = .ok bs ∧
        source.replayWindow union = .ok (as ++ bs)
  /-- The most recent positions are the last rows. -/
  recent : ∀ windowItems, windowItems ≠ 0 →
    windowItems ≤ source.identity.logicalEndPosition - source.identity.logicalStartPosition + 1 →
      ∃ request, source.replayRecentWindow windowItems = .ok (request,
          source.rows.drop (source.rows.length - windowItems * source.rowWidth)) ∧
        request.source = source.identity ∧
        request.logicalStartPosition = source.identity.logicalEndPosition - (windowItems - 1) ∧
        request.logicalEndPosition = source.identity.logicalEndPosition
  /-- No positions, and more of them than the source has, are refused. -/
  recent_refused : ∀ windowItems,
    windowItems = 0 ∨
      source.identity.logicalEndPosition - source.identity.logicalStartPosition + 1 < windowItems →
    source.replayRecentWindow windowItems = .error (.error (.identity
      (if windowItems = 0 then .zeroWindowItems
      else .recentWindowExceedsSource
        (source.identity.logicalEndPosition - source.identity.logicalStartPosition + 1)
        windowItems)))

theorem replayWindow_mismatch (request : ReplayWindowRequestV1)
    (h : request.source ≠ source.identity) :
    source.replayWindow request = .error (.error (.identity .sourceIdentityMismatch)) := by
  rw [replayWindow, Outcome.require_of_not _ (Ne.symm h)]
  rfl

theorem replayRecentWindow_eq_ok {windowItems : ℕ} (hzero : windowItems ≠ 0)
    (hle : windowItems ≤
      source.identity.logicalEndPosition - source.identity.logicalStartPosition + 1) :
    ∃ request, source.replayRecentWindow windowItems = .ok (request,
        source.rows.drop (source.rows.length - windowItems * source.rowWidth)) ∧
      ReplayWindowRequestV1.recent source.identity windowItems = .ok request ∧
      request.source = source.identity ∧
      request.logicalStartPosition = source.identity.logicalEndPosition - (windowItems - 1) ∧
      request.logicalEndPosition = source.identity.logicalEndPosition := by
  have hrange := source.identity.start_le_end
  have hrecent := ReplayWindowRequestV1.recent_eq hzero hle
  obtain ⟨request, hnew⟩ : ∃ request, ReplayWindowRequestV1.new source.identity
      (source.identity.logicalEndPosition - (windowItems - 1))
      source.identity.logicalEndPosition = .ok request :=
    ⟨_, ReplayWindowRequestV1.exists_new (by omega) (by omega) (Nat.le_refl _)⟩
  obtain ⟨hsource, hstart, hstop⟩ := ReplayWindowRequestV1.new_eq_ok_iff.1 hnew
  rw [hnew] at hrecent
  refine ⟨request, ?_, hrecent, hsource, hstart, hstop⟩
  rw [replayRecentWindow, hrecent]
  change (do let rows ← source.replayWindow request; pure (request, rows)) = _
  rw [source.replayWindow_eq_ok request hsource, hstart, hstop, source.window_recent hzero hle]
  rfl

/-- A constructed source holds what it was given. -/
theorem eq_of_new {identity : ReplaySourceIdentityV1} {rowWidth : ℕ} {rows : List F32}
    {source : CpuReplaySourceV1} (h : new identity rowWidth rows = .ok source) :
    source.identity = identity ∧ source.rowWidth = rowWidth ∧ source.rows = rows := by
  unfold new at h
  split at h
  · exact nomatch h
  · obtain rfl := Except.ok.inj h
    exact ⟨rfl, rfl, rfl⟩

theorem error_of_new {identity : ReplaySourceIdentityV1} {rowWidth : ℕ} {rows : List F32}
    {e : Stop CpuReplayError} (h : new identity rowWidth rows = .error e) :
    validateReplayPayload identity rowWidth rows = .error e := by
  unfold new at h
  split at h
  case h_1 e' he => exact Except.error.inj h ▸ he
  case h_2 => exact nomatch h

/-- Every source answers exactly. -/
theorem exact : source.Exact where
  window start stop request h := by
    obtain ⟨hsource, rfl, rfl⟩ := ReplayWindowRequestV1.new_eq_ok_iff.1 h
    rw [source.replayWindow_eq_ok request hsource, source.window_eq_flatMap]
    exact hsource ▸ request.source_start_le
  mismatch := source.replayWindow_mismatch
  no_overflow request := by
    by_cases h : request.source = source.identity
    · rw [source.replayWindow_eq_ok request h]
      nofun
    · rw [source.replayWindow_mismatch request h]
      nofun
  adjacent start middle stop first second union hfirst hsecond hunion := by
    obtain ⟨hsource, rfl, rfl⟩ := ReplayWindowRequestV1.new_eq_ok_iff.1 hfirst
    obtain ⟨hsource₂, hstart₂, rfl⟩ := ReplayWindowRequestV1.new_eq_ok_iff.1 hsecond
    obtain ⟨hsource₃, hstart₃, hstop₃⟩ := ReplayWindowRequestV1.new_eq_ok_iff.1 hunion
    refine ⟨_, _, source.replayWindow_eq_ok first hsource,
      source.replayWindow_eq_ok second hsource₂, ?_⟩
    have hrange := second.start_le_end
    rw [source.replayWindow_eq_ok union hsource₃, hstart₂, hstart₃, hstop₃,
      source.window_append (hsource ▸ first.source_start_le) first.start_le_end (hstart₂ ▸ hrange)]
  recent windowItems hzero hle := by
    obtain ⟨request, hreplay, -, hrequest⟩ := source.replayRecentWindow_eq_ok hzero hle
    exact ⟨request, hreplay, hrequest⟩
  recent_refused windowItems h := by
    rw [replayRecentWindow]
    by_cases hzero : windowItems = 0
    · subst hzero
      rfl
    · rw [if_neg hzero, ReplayWindowRequestV1.recent_exceeds source.payload_spec.2.1
        (h.resolve_left hzero)]
      rfl

end CpuReplaySourceV1

end NNIS
