import NNIS.Semantics.Checked
import NNIS.Text.Str

/-!
# Replay windows

The source identities and the bounded windows of `nnis-core/src/replay_state.rs`. Positions are
64-bit and ranges are inclusive. An identity and a window carry what their constructors check.

## Main definitions

* `ReplayIdentityError`, `ReplayRepresentationIdentityV1`, `ReplaySourceIdentityV1`,
  `ReplayWindowRequestV1` with their constructors.
* `ReplayWindowRequestV1.recent`, `logicalItems`.

## Main results

* `ReplayWindowRequestV1.new_eq_ok_iff`, `ReplayWindowRequestV1.recent_eq`.
-/

set_option autoImplicit false

namespace NNIS

/-- Maximum UTF-8 bytes accepted for provider, source and representation identities. -/
def maxReplayIdBytes : ℕ := 128

/-- Fail-closed replay-provider identity errors. -/
inductive ReplayIdentityError
  | emptyId (field : String)
  | idTooLong (field : String) (bytes : ℕ)
  | nonCanonicalId (field : String)
  | zeroRepresentationSchemaVersion
  | invalidSourceRange (start stop : ℕ)
  | invalidWindowRange (start stop : ℕ)
  | windowOutsideSource (sourceStart sourceEnd requestedStart requestedEnd : ℕ)
  | zeroWindowItems
  | recentWindowExceedsSource (available requested : ℕ)
  | positionOverflow
  | sourceIdentityMismatch
  deriving DecidableEq

/-- The text of an error. -/
def ReplayIdentityError.text : ReplayIdentityError → String
  | emptyId field => s!"{field} must not be empty"
  | idTooLong field bytes => s!"{field} uses {bytes} bytes, maximum is {maxReplayIdBytes}"
  | nonCanonicalId field => s!"{field} must not have leading or trailing whitespace"
  | zeroRepresentationSchemaVersion =>
    "replay representation schema version must be non-zero"
  | invalidSourceRange start stop => s!"invalid replay source range {start}..={stop}"
  | invalidWindowRange start stop => s!"invalid replay window {start}..={stop}"
  | windowOutsideSource sourceStart sourceEnd requestedStart requestedEnd =>
    s!"replay window {requestedStart}..={requestedEnd} is outside source " ++
      s!"{sourceStart}..={sourceEnd}"
  | zeroWindowItems => "recent replay window must be non-empty"
  | recentWindowExceedsSource available requested =>
    s!"recent replay window of {requested} items exceeds the {available} source items"
  | positionOverflow => "replay logical-position arithmetic overflow"
  | sourceIdentityMismatch => "replay request source identity no longer matches provider"

def validateReplayId (field value : String) : Outcome ReplayIdentityError PUnit :=
  Str.requireCanonicalId maxReplayIdBytes (.emptyId field) (.nonCanonicalId field)
    (.idTooLong field) value

/-- The number of positions of an inclusive range. -/
def logicalItems (logicalStartPosition logicalEndPosition : ℕ) : Outcome ReplayIdentityError ℕ :=
  .okOr ((checkedSub logicalEndPosition logicalStartPosition).bind fun delta =>
    checkedAdd delta 1) .positionOverflow

/-! ### Identities -/

/-- Exact representation identity of a replay source. -/
structure ReplayRepresentationIdentityV1 where
  id : String
  schemaVersion : UInt32
  materializationEpoch : UInt64
  id_valid : validateReplayId "representation_id" id = .ok ⟨⟩
  schemaVersion_ne : schemaVersion ≠ 0
  deriving DecidableEq

/-- Construct a representation identity with a non-zero schema version. -/
def ReplayRepresentationIdentityV1.new (id : String) (schemaVersion : UInt32)
    (materializationEpoch : UInt64) :
    Outcome ReplayIdentityError ReplayRepresentationIdentityV1 :=
  match hid : validateReplayId "representation_id" id with
  | .error e => .error e
  | .ok _ =>
    if hversion : schemaVersion = 0 then .raise .zeroRepresentationSchemaVersion
    else .ok ⟨id, schemaVersion, materializationEpoch, hid, hversion⟩

/-- Exact logical source range made available by one runtime provider. -/
structure ReplaySourceIdentityV1 where
  providerId : String
  sourceId : String
  sourceGeneration : UInt64
  representation : ReplayRepresentationIdentityV1
  logicalStartPosition : ℕ
  logicalEndPosition : ℕ
  providerId_valid : validateReplayId "provider_id" providerId = .ok ⟨⟩
  sourceId_valid : validateReplayId "source_id" sourceId = .ok ⟨⟩
  start_le_end : logicalStartPosition ≤ logicalEndPosition
  end_lt : logicalEndPosition < wordLimit
  deriving DecidableEq

namespace ReplaySourceIdentityV1

/-- Construct an exact source identity. -/
def new (providerId sourceId : String) (sourceGeneration : UInt64)
    (representation : ReplayRepresentationIdentityV1)
    (logicalStartPosition logicalEndPosition : UInt64) :
    Outcome ReplayIdentityError ReplaySourceIdentityV1 :=
  match hprovider : validateReplayId "provider_id" providerId with
  | .error e => .error e
  | .ok _ =>
    match hsource : validateReplayId "source_id" sourceId with
    | .error e => .error e
    | .ok _ =>
      if hrange : logicalEndPosition.toNat < logicalStartPosition.toNat then
        .raise (.invalidSourceRange logicalStartPosition.toNat logicalEndPosition.toNat)
      else
        .ok ⟨providerId, sourceId, sourceGeneration, representation, logicalStartPosition.toNat,
          logicalEndPosition.toNat, hprovider, hsource, Nat.le_of_not_lt hrange,
          logicalEndPosition.toNat_lt⟩

/-- Number of logical items of the source range. -/
def logicalItems (identity : ReplaySourceIdentityV1) : Outcome ReplayIdentityError ℕ :=
  NNIS.logicalItems identity.logicalStartPosition identity.logicalEndPosition

end ReplaySourceIdentityV1

/-! ### Windows -/

/-- One bounded replay window tied to an exact source identity. -/
structure ReplayWindowRequestV1 where
  source : ReplaySourceIdentityV1
  logicalStartPosition : ℕ
  logicalEndPosition : ℕ
  start_le_end : logicalStartPosition ≤ logicalEndPosition
  source_start_le : source.logicalStartPosition ≤ logicalStartPosition
  end_le_source : logicalEndPosition ≤ source.logicalEndPosition
  deriving DecidableEq

namespace ReplayWindowRequestV1

/-- Construct a non-empty window contained by the declared source range. -/
def new (source : ReplaySourceIdentityV1) (logicalStartPosition logicalEndPosition : ℕ) :
    Outcome ReplayIdentityError ReplayWindowRequestV1 :=
  if hrange : logicalEndPosition < logicalStartPosition then
    .raise (.invalidWindowRange logicalStartPosition logicalEndPosition)
  else if hsource : logicalStartPosition < source.logicalStartPosition ∨
      source.logicalEndPosition < logicalEndPosition then
    .raise (.windowOutsideSource source.logicalStartPosition source.logicalEndPosition
      logicalStartPosition logicalEndPosition)
  else
    .ok ⟨source, logicalStartPosition, logicalEndPosition, Nat.le_of_not_lt hrange,
      Nat.le_of_not_lt fun h => hsource (.inl h), Nat.le_of_not_lt fun h => hsource (.inr h)⟩

/-- Construct the window of the most recent positions of a source. -/
def recent (source : ReplaySourceIdentityV1) (windowItems : ℕ) :
    Outcome ReplayIdentityError ReplayWindowRequestV1 := do
  .require (windowItems ≠ 0) .zeroWindowItems
  let span := source.logicalEndPosition - source.logicalStartPosition
  let windowSpan := windowItems - 1
  if span < windowSpan then
    let available ← source.logicalItems
    .raise (.recentWindowExceedsSource available windowItems)
  else new source (source.logicalEndPosition - windowSpan) source.logicalEndPosition

/-- Number of logical items of the window. -/
def logicalItems (request : ReplayWindowRequestV1) : Outcome ReplayIdentityError ℕ :=
  NNIS.logicalItems request.logicalStartPosition request.logicalEndPosition

/-- The windows of a source are its non-empty parts. -/
theorem exists_new {source : ReplaySourceIdentityV1} {start stop : ℕ} (h : start ≤ stop)
    (hstart : source.logicalStartPosition ≤ start) (hstop : stop ≤ source.logicalEndPosition) :
    new source start stop = .ok ⟨source, start, stop, h, hstart, hstop⟩ := by
  rw [new, dif_neg (Nat.not_lt.2 h), dif_neg]
  exact fun hbad => hbad.elim (Nat.not_lt.2 hstart) (Nat.not_lt.2 hstop)

theorem new_eq_ok_iff {source : ReplaySourceIdentityV1} {start stop : ℕ}
    {request : ReplayWindowRequestV1} :
    new source start stop = .ok request ↔ request.source = source ∧
      request.logicalStartPosition = start ∧ request.logicalEndPosition = stop := by
  constructor
  · intro h
    unfold new at h
    split_ifs at h
    · exact absurd h nofun
    · exact absurd h nofun
    · obtain rfl := Except.ok.inj h
      exact ⟨rfl, rfl, rfl⟩
  · rintro ⟨rfl, rfl, rfl⟩
    exact exists_new request.start_le_end request.source_start_le request.end_le_source

/-- The most recent positions of a source, as many as it has or fewer. -/
theorem recent_eq {source : ReplaySourceIdentityV1} {windowItems : ℕ} (h : windowItems ≠ 0)
    (hle : windowItems ≤ source.logicalEndPosition - source.logicalStartPosition + 1) :
    recent source windowItems =
      new source (source.logicalEndPosition - (windowItems - 1)) source.logicalEndPosition := by
  rw [recent, Outcome.require_of _ h, Except.ok_bind]
  exact if_neg (by omega)

end ReplayWindowRequestV1

end NNIS
