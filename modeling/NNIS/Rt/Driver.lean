import NNIS.Semantics.Fallible

/-!
# The driver

Every call into the native driver is answered by the environment: it is accepted, or refused with
an error. An answer may depend on all calls before it, so any call may fail at any time and an
error may persist. Device work is submitted to one stream in order; work that has been accepted
has its effect, and a refused wait is only a report. A stream keeps the history of its calls.

The errors follow `nnis-rt/src/error.rs`: misuse and unsupported requests carry their text, and an
error of a native call is whatever the environment answers.

## Main definitions

* `NnisError`, `NnisError.text`.
* `CallSite` — the places of the runtime that call the driver.
* `Stream`, `Stream.call`, `Stream.Accepting`.
-/

set_option autoImplicit false

namespace NNIS

/-- Root error type of the runtime. -/
inductive NnisError
  | invalidInput (what : String)
  | unsupported (what : String)
  /-- A failed native call, with its rendered description. -/
  | native (description : String)
  deriving DecidableEq

/-- The text of an error. -/
def NnisError.text : NnisError → String
  | invalidInput what => s!"invalid input: {what}"
  | unsupported what => s!"unsupported: {what}"
  | native description => description

/-- The value of a checked computation, or a rejected request. -/
def orInvalid {α : Type} (what : String) : Option α → Except NnisError α
  | some a => .ok a
  | none => .error (.invalidInput what)

/-- The reasons to wait for a stream. -/
inductive SyncPoint
  | reset | verify | rewind | finish | compact | rebuild | stage | replaced | drain
  deriving DecidableEq

/-- The groups of kernel launches that encode one token. -/
inductive Stage
  | gather
  /-- Up to the rotated query and key of a layer. -/
  | input (layer : ℕ)
  /-- From the attention of a layer to its output. -/
  | output (layer : ℕ)
  | finalNorm
  | lmHead
  deriving DecidableEq

/-- The places of the runtime that call the driver. -/
inductive CallSite
  | synchronize (point : SyncPoint)
  | allocate
  | uploadTokens
  | uploadToken
  | selectToken (index : ℕ)
  | topOne
  | recordToken (step : ℕ)
  | downloadToken
  | downloadTokens
  | downloadLogits
  /-- The launch with a given index of a stage. -/
  | launch (stage : Stage) (index : ℕ)
  | prepareAppend (layer : ℕ)
  | appendKey (layer head : ℕ)
  | appendValue (layer head : ℕ)
  /-- The completion event of an append. -/
  | recordAppend (layer : ℕ)
  | waitAppend (layer : ℕ)
  | prepareStaging (layer : ℕ)
  | stageKey (layer head position : ℕ)
  | stageValue (layer head position : ℕ)
  deriving DecidableEq

/-- A call and whether it was accepted. -/
abbrev CallRecord := CallSite × Bool

/-- Any call at all. -/
def anyCall (_ : CallRecord) : Prop := True

/-- An environment: from the calls so far, the latest first, the refusal of the next call if it is
refused. -/
abbrev Driver := List CallRecord → CallSite → Option NnisError

/-- The environment that refuses the calls from one site. -/
def refusing (site : CallSite) : Driver := fun _ next =>
  if next = site then some (.native "driver call failed") else none

/-- The environment that accepts one call from a site and refuses the next ones. -/
def refusingAgain (site : CallSite) : Driver := fun history next =>
  if next = site ∧ (site, true) ∈ history then some (.native "driver call failed") else none

/-- A stream: the environment that answers its calls, and the calls so far, the latest first. -/
structure Stream where
  driver : Driver
  history : List CallRecord

namespace Stream

/-- Call the driver. -/
def call (site : CallSite) : Fallible Stream NnisError PUnit :=
  ⟨fun s =>
    match s.driver s.history site with
    | none => (.ok ⟨⟩, { s with history := (site, true) :: s.history })
    | some error => (.error error, { s with history := (site, false) :: s.history })⟩

/-- The stream whose driver accepts every call. -/
def accepting : Stream := ⟨fun _ _ => none, []⟩

/-- The environment accepts every call from here on. -/
def Accepting (s : Stream) : Prop := ∀ history site, s.driver history site = none

/-- The number of accepted calls from a site. -/
def accepted (s : Stream) (site : CallSite) : ℕ := s.history.count (site, true)

/-- Some call from a site of a kind has been refused. -/
def Refused (s : Stream) (kind : CallSite → Bool) : Prop :=
  ∃ site, kind site = true ∧ (site, false) ∈ s.history

instance (s : Stream) (kind : CallSite → Bool) : Decidable (s.Refused kind) :=
  decidable_of_iff (∃ r ∈ s.history, kind r.1 = true ∧ r.2 = false)
    ⟨fun ⟨⟨site, _⟩, hmem, hk, hr⟩ => ⟨site, hk, hr ▸ hmem⟩,
      fun ⟨site, hk, hmem⟩ => ⟨(site, false), hmem, hk, rfl⟩⟩

/-! ### Calls between two states of a stream -/

/-- The second state is reached from the first one by calls of a kind, accepted or refused. -/
structure Since (kind : CallRecord → Prop) (s s' : Stream) : Prop where
  driver_eq : s'.driver = s.driver
  calls : ∃ calls, s'.history = calls ++ s.history ∧ ∀ c ∈ calls, kind c

namespace Since

variable {kind kind' : CallRecord → Prop} {s s' s'' : Stream}

theorem refl (kind : CallRecord → Prop) (s : Stream) : Since kind s s :=
  ⟨rfl, [], rfl, fun _ hc => absurd hc List.not_mem_nil⟩

theorem trans (h : Since kind s s') (h' : Since kind s' s'') : Since kind s s'' := by
  obtain ⟨hd, calls, hh, hk⟩ := h
  obtain ⟨hd', calls', hh', hk'⟩ := h'
  refine ⟨hd'.trans hd, calls' ++ calls, by rw [hh', hh, List.append_assoc], fun c hc => ?_⟩
  rcases List.mem_append.1 hc with hc | hc
  · exact hk' c hc
  · exact hk c hc

theorem mono (h : Since kind s s') (hk : ∀ c, kind c → kind' c) : Since kind' s s' := by
  obtain ⟨hd, calls, hh, hc⟩ := h
  exact ⟨hd, calls, hh, fun c hmem => hk c (hc c hmem)⟩

theorem accepting (h : Since kind s s') (ha : s.Accepting) : s'.Accepting := by
  intro history site
  rw [h.driver_eq]
  exact ha history site

theorem not_accepting (h : Since kind s s') (ha : ¬ s.Accepting) : ¬ s'.Accepting := by
  intro ha'
  refine ha fun history site => ?_
  rw [← h.driver_eq]
  exact ha' history site

theorem mem_history (h : Since kind s s') {r : CallRecord} (hr : r ∈ s.history) :
    r ∈ s'.history := by
  obtain ⟨-, calls, hh, -⟩ := h
  exact hh ▸ List.mem_append_right calls hr

/-- A refused call stays refused. -/
theorem refused (h : Since kind s s') {sites : CallSite → Bool} (hr : s.Refused sites) :
    s'.Refused sites := by
  obtain ⟨site, hs, hmem⟩ := hr
  exact ⟨site, hs, h.mem_history hmem⟩

/-- Calls that are not accepted calls from a site do not count for it. -/
theorem accepted_eq (h : Since kind s s') {site : CallSite} (hk : ¬ kind (site, true)) :
    s'.accepted site = s.accepted site := by
  obtain ⟨-, calls, hh, hc⟩ := h
  rw [accepted, hh, List.count_append, List.count_eq_zero_of_not_mem fun hmem => hk (hc _ hmem),
    Nat.zero_add, accepted]

end Since

/-- A call is accepted, or it is refused and the environment does not accept everything. -/
theorem call_spec (s₀ : Stream) (site : CallSite) {kind : CallRecord → Prop}
    (hkind : ∀ ok, kind (site, ok)) :
    Fallible.Spec (fun s => s = s₀) (call site)
      (fun _ s => Since kind s₀ s ∧ s.history = (site, true) :: s₀.history)
      fun _ s => Since kind s₀ s ∧ s.history = (site, false) :: s₀.history ∧ ¬ s.Accepting := by
  rintro s rfl
  cases h : s.driver s.history site with
  | none =>
    simp only [call, h, Fallible.Post, and_true]
    exact ⟨rfl, [(site, true)], rfl, fun c hc => List.mem_singleton.1 hc ▸ hkind true⟩
  | some error =>
    simp only [call, h, Fallible.Post, true_and]
    refine ⟨⟨rfl, [(site, false)], rfl, fun c hc => List.mem_singleton.1 hc ▸ hkind false⟩,
      fun ha => ?_⟩
    have := ha s.history site
    rw [h] at this
    cases this

end Stream

end NNIS
