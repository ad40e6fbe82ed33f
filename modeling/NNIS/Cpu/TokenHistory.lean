import NNIS.Cpu.Session
import NNIS.Cpu.SyntheticModel

/-!
# The tokens of a portable session

What a synthetic session is for, apart from buffers and sums: it remembers which tokens are
committed, which one is pending, which ones the published logits stand for, and whether the shadow
of the cache is up to date. A call is a sequence of events, or it is refused by a check after some
of them. A host that refuses memory can stop a call between two of its events.

## Main definitions

* `TokenHistory`, `TokenEvent`, `TokenHistory.after`.
* `TokenHistory.plan` — the events of a call and the refusal that ends it.
* `TokenHistory.perform` — the call without interruption.
* `TokenHistory.Answers` — sequences of calls on a host that may interrupt them.

## Main results

* `TokenHistory.afterAll_entering` — what is left of tokens that enter one after the other.
-/

set_option autoImplicit false

namespace NNIS

/-- What a session remembers of the tokens given to it. -/
structure TokenHistory where
  committed : List ℕ
  pending : Option ℕ
  published : List ℕ
  synced : Bool
  deriving DecidableEq

/-- What a call does to the tokens, one step after the other. -/
inductive TokenEvent
  | stage (token : ℕ)
  | drop
  | commit (token : ℕ)
  | cut (length : ℕ)
  | publish
  | sync
  deriving DecidableEq

namespace TokenHistory

/-! ### Events -/

/-- The history of a new session. -/
def fresh : TokenHistory := ⟨[], none, [], true⟩

/-- The history after an event. -/
def after (h : TokenHistory) : TokenEvent → TokenHistory
  | .stage token => { h with pending := some token, published := h.committed ++ [token] }
  | .drop => { h with pending := none }
  | .commit token => { h with committed := h.committed ++ [token], synced := false }
  | .cut length =>
    { h with committed := h.committed.take length, pending := none, synced := false }
  | .publish => { h with published := h.committed }
  | .sync => { h with synced := true }

/-- The history after events. -/
def afterAll (h : TokenHistory) (events : List TokenEvent) : TokenHistory := events.foldl after h

@[simp] theorem afterAll_nil (h : TokenHistory) : h.afterAll [] = h := rfl

@[simp] theorem afterAll_cons (h : TokenHistory) (event : TokenEvent) (events : List TokenEvent) :
    h.afterAll (event :: events) = (h.after event).afterAll events := rfl

theorem afterAll_append (h : TokenHistory) (events events' : List TokenEvent) :
    h.afterAll (events ++ events') = (h.afterAll events).afterAll events' :=
  List.foldl_append

/-- The events by which a token enters the cache. -/
def enter (token : ℕ) : List TokenEvent := [.stage token, .drop, .commit token, .sync]

/-- The history after a token has entered the cache. -/
def entered (h : TokenHistory) (token : ℕ) : TokenHistory :=
  ⟨h.committed ++ [token], none, h.committed ++ [token], true⟩

theorem afterAll_enter (h : TokenHistory) (token : ℕ) :
    h.afterAll (enter token) = h.entered token := rfl

/-! ### Calls -/

variable (spec : SyntheticPortableModelSpecV1)

/-- Why a token is refused behind a number of committed ones. -/
def refusal (committed token : ℕ) : Option PortableSessionError :=
  if spec.vocabSize ≤ token then some (.invalid "token id exceeds synthetic vocabulary")
  else if spec.capacity ≤ committed then
    some (.state "portable session encode/decode would exceed KV capacity")
  else none

/-- The events by which tokens enter the cache, up to the first one that is refused. -/
def entering (committed : ℕ) : List ℕ → List TokenEvent × Option PortableSessionError
  | [] => ([], none)
  | token :: tokens =>
    match refusal spec committed token with
    | some e => ([], some e)
    | none =>
      (enter token ++ (entering (committed + 1) tokens).1, (entering (committed + 1) tokens).2)

/-- The events of a call, and the refusal that ends it. -/
def plan (call : PortableSessionCallV1) (h : TokenHistory) :
    List TokenEvent × Option PortableSessionError :=
  match call with
  | .stageToken token =>
    if h.pending.isSome then
      ([], some (.state
        "portable session already has a pending KV row; advance_kv or truncate first"))
    else
      match refusal spec h.committed.length token.toNat with
      | some e => ([], some e)
      | none => ([.stage token.toNat], none)
  | .advanceKv =>
    match h.pending with
    | none => ([], some (.state "portable session advance_kv requires a staged token"))
    | some token => ([.drop, .commit token, .sync], none)
  | .encode tokens =>
    if tokens = [] then
      ([], some (.invalid "portable session encode requires a non-empty token list"))
    else if h.committed ≠ [] ∨ h.pending.isSome then
      ([], some (.state "portable session encode requires a fresh (reset) session"))
    else entering spec 0 (tokens.map UInt32.toNat)
  | .decodeOne token =>
    if h.pending.isSome then
      ([], some (.state "portable session decode_one requires no pending KV row"))
    else entering spec h.committed.length [token.toNat]
  | .truncate length =>
    if h.committed.length < length then
      ([], some (.invalid "portable session truncate length exceeds kv_len"))
    else ([.cut length, .publish, .sync], none)
  | .reset => ([.cut 0, .publish, .sync], none)

/-- The logits that stand for tokens: none before the first one. -/
def logits (tokens : List ℕ) : List F32 := if tokens = [] then [] else spec.logitsOf tokens

/-- The answer to a call that leaves a history. -/
def answer (call : PortableSessionCallV1) (h : TokenHistory) : Option (List F32) :=
  match call with
  | .stageToken _ | .encode _ | .decodeOne _ => some (logits spec h.published)
  | .advanceKv | .truncate _ | .reset => none

/-- A call without interruption. -/
def perform (call : PortableSessionCallV1) (h : TokenHistory) :
    PortableSessionReplyV1 × TokenHistory :=
  let h' := h.afterAll (plan spec call h).1
  ((plan spec call h).2.elim (.ok (answer spec call h')) Outcome.raise, h')

/-- One call on a host that may refuse memory: it is performed, or fails between two of its
events. -/
inductive Step (call : PortableSessionCallV1) (h : TokenHistory) :
    PortableSessionReplyV1 → TokenHistory → Prop
  | performed : Step call h (perform spec call h).1 (perform spec call h).2
  | interrupted (message : String) (done : List TokenEvent)
      (hdone : done <+: (plan spec call h).1) :
    Step call h (.error (.error (.backend message))) (h.afterAll done)

/-- Calls one after the other on a host that may refuse memory, and their answers. -/
inductive Answers : List PortableSessionCallV1 → TokenHistory → List PortableSessionReplyV1 →
    TokenHistory → Prop
  | nil (h : TokenHistory) : Answers [] h [] h
  | cons {call : PortableSessionCallV1} {calls : List PortableSessionCallV1}
    {h h' h'' : TokenHistory} {reply : PortableSessionReplyV1}
    {replies : List PortableSessionReplyV1} (hstep : Step spec call h reply h')
    (hrest : Answers calls h' replies h'') : Answers (call :: calls) h (reply :: replies) h''

variable {spec}

theorem Answers.safe {calls : List PortableSessionCallV1} {h h' : TokenHistory}
    {replies : List PortableSessionReplyV1} (hanswers : Answers spec calls h replies h') :
    ∀ reply ∈ replies, reply ≠ .error .panic := by
  induction hanswers with
  | nil => simp
  | cons hstep hrest ih =>
    refine List.forall_mem_cons.2 ⟨?_, ih⟩
    cases hstep with
    | performed =>
      rw [perform]
      cases (plan spec _ _).2 <;> simp [Outcome.raise]
    | interrupted message done hdone => simp

theorem refusal_eq_none_iff {committed token : ℕ} :
    refusal spec committed token = none ↔ token < spec.vocabSize ∧ committed < spec.capacity := by
  rw [refusal]
  split_ifs <;> simp <;> omega

/-! ### Prompts -/

variable (spec) in
/-- The events by which tokens enter the cache leave the accepted tokens. -/
theorem afterAll_entering (tokens : List ℕ) (h : TokenHistory) (hpending : h.pending = none) :
    ∃ k ≤ tokens.length,
      (∀ i < k, ∀ token, tokens[i]? = some token →
        refusal spec (h.committed.length + i) token = none) ∧
      (entering spec h.committed.length tokens).2 =
        tokens[k]?.bind (refusal spec (h.committed.length + k)) ∧
      (k < tokens.length → (entering spec h.committed.length tokens).2 ≠ none) ∧
      h.afterAll (entering spec h.committed.length tokens).1 =
        if k = 0 then h
        else ⟨h.committed ++ tokens.take k, none, h.committed ++ tokens.take k, true⟩ := by
  induction tokens generalizing h with
  | nil => exact ⟨0, Nat.le_refl 0, by simp, rfl, by simp, rfl⟩
  | cons token tokens ih =>
    rw [entering]
    cases hrefusal : refusal spec h.committed.length token with
    | some e => exact ⟨0, Nat.zero_le _, by simp, by simp [hrefusal], by simp, rfl⟩
    | none =>
      obtain ⟨k, hk, haccepted, hresult, hmore, hafter⟩ := ih (h.entered token) rfl
      have hlength : (h.entered token).committed.length = h.committed.length + 1 := by
        simp [entered]
      rw [hlength] at haccepted hresult hmore hafter
      refine ⟨k + 1, Nat.succ_le_succ hk, fun i hi t ht => ?_, ?_, fun hlt => ?_, ?_⟩
      · cases i with
        | zero =>
          obtain rfl := Option.some.inj ht
          exact hrefusal
        | succ i =>
          have := haccepted i (Nat.lt_of_succ_lt_succ hi) t ht
          rwa [Nat.add_right_comm, Nat.add_assoc] at this
      · rw [List.getElem?_cons_succ, ← Nat.add_assoc, Nat.add_right_comm]
        exact hresult
      · exact hmore (Nat.lt_of_succ_lt_succ hlt)
      · rw [afterAll_append, afterAll_enter, hafter, if_neg (Nat.succ_ne_zero k)]
        by_cases hzero : k = 0
        · simp [hzero, entered]
        · simp [hzero, entered]

/-- Between two events of a prompt a beginning of its tokens is committed, and at most the next one
is pending. -/
theorem afterAll_of_prefix (tokens : List ℕ) (h : TokenHistory) (hpending : h.pending = none)
    {done : List TokenEvent} (hdone : done <+: (entering spec h.committed.length tokens).1) :
    ∃ k ≤ tokens.length, (h.afterAll done).committed = h.committed ++ tokens.take k ∧
      ((h.afterAll done).pending = none ∨ (h.afterAll done).pending = tokens[k]?) := by
  induction tokens generalizing h done with
  | nil =>
    obtain rfl := List.prefix_nil.1 hdone
    exact ⟨0, Nat.le_refl 0, by simp, .inl hpending⟩
  | cons token tokens ih =>
    rw [entering] at hdone
    cases hrefusal : refusal spec h.committed.length token with
    | some e =>
      rw [hrefusal] at hdone
      obtain rfl := List.prefix_nil.1 hdone
      exact ⟨0, Nat.zero_le _, by simp, .inl hpending⟩
    | none =>
      rw [hrefusal] at hdone
      rcases List.prefix_or_prefix_of_prefix hdone (List.prefix_append (enter token) _) with
        hfirst | ⟨rest, rfl⟩
      · simp only [enter, List.prefix_cons_iff, List.prefix_nil] at hfirst
        rcases hfirst with rfl | ⟨_, rfl, rfl | ⟨_, rfl, rfl | ⟨_, rfl, rfl | ⟨_, rfl, rfl⟩⟩⟩⟩
        · exact ⟨0, Nat.zero_le _, by simp, .inl hpending⟩
        · exact ⟨0, Nat.zero_le _, by simp [after], .inr rfl⟩
        · exact ⟨0, Nat.zero_le _, by simp [after], .inl rfl⟩
        · exact ⟨1, by simp, by simp [after], .inl rfl⟩
        · exact ⟨1, by simp, by simp [after], .inl rfl⟩
      · have hrest := (List.prefix_append_right_inj (enter token)).1 hdone
        have hlength : (h.entered token).committed.length = h.committed.length + 1 := by
          simp [entered]
        obtain ⟨k, hk, hcommitted, hnext⟩ := ih (h.entered token) rfl (hlength ▸ hrest)
        refine ⟨k + 1, Nat.succ_le_succ hk, ?_, ?_⟩
        · rw [afterAll_append, afterAll_enter, hcommitted]
          simp [entered]
        · rw [afterAll_append, afterAll_enter]
          exact hnext

/-! ### Validity -/

/-- The tokens belong to the vocabulary, and the committed ones fit the capacity. -/
structure Valid (spec : SyntheticPortableModelSpecV1) (h : TokenHistory) : Prop where
  committed_lt : ∀ token ∈ h.committed, token < spec.vocabSize
  length_le : h.committed.length ≤ spec.capacity
  pending_lt : ∀ token, h.pending = some token →
    token < spec.vocabSize ∧ h.committed.length < spec.capacity

theorem valid_fresh : Valid spec fresh where
  committed_lt := by simp [fresh]
  length_le := Nat.zero_le _
  pending_lt := by simp [fresh]

theorem Valid.entering {h : TokenHistory} (hvalid : Valid spec h) (tokens : List ℕ)
    (hpending : h.pending = none) :
    Valid spec (h.afterAll (entering spec h.committed.length tokens).1) := by
  obtain ⟨k, hk, haccepted, -, -, hafter⟩ := afterAll_entering spec tokens h hpending
  have htoken (i : ℕ) (hi : i < k) : ∃ token, tokens[i]? = some token ∧ token < spec.vocabSize ∧
      h.committed.length + i < spec.capacity := by
    have hget := List.getElem?_eq_getElem (hi.trans_le hk)
    exact ⟨_, hget, refusal_eq_none_iff.1 (haccepted i hi _ hget)⟩
  rw [hafter]
  split_ifs with hzero
  · exact hvalid
  · refine ⟨fun token hmem => ?_, ?_, by simp⟩
    · rcases List.mem_append.1 hmem with hold | hnew
      · exact hvalid.committed_lt token hold
      · obtain ⟨i, hi, rfl⟩ := List.mem_take_iff_getElem.1 hnew
        obtain ⟨token, hget, hlt, -⟩ := htoken i (hi.trans_le (Nat.min_le_left _ _))
        rw [List.getElem?_eq_getElem (hi.trans_le (Nat.min_le_right _ _))] at hget
        rwa [Option.some.inj hget]
    · obtain ⟨token, -, -, hlt⟩ := htoken (k - 1) (Nat.pred_lt hzero)
      rw [List.length_append, List.length_take_of_le hk]
      omega

/-- A call without interruption keeps the history valid. -/
theorem Valid.perform {h : TokenHistory} (hvalid : Valid spec h) (call : PortableSessionCallV1) :
    Valid spec (TokenHistory.perform spec call h).2 := by
  cases call with
  | stageToken token =>
    rw [TokenHistory.perform, plan]
    split_ifs
    · exact hvalid
    · cases hrefusal : refusal spec h.committed.length token.toNat with
      | some e => exact hvalid
      | none =>
        refine ⟨hvalid.committed_lt, hvalid.length_le, fun t ht => ?_⟩
        obtain rfl : token.toNat = t := Option.some.inj ht
        exact refusal_eq_none_iff.1 hrefusal
  | advanceKv =>
    rw [TokenHistory.perform, plan]
    cases hpending : h.pending with
    | none => exact hvalid
    | some token =>
      obtain ⟨hlt, hroom⟩ := hvalid.pending_lt token hpending
      refine ⟨fun t ht => ?_, ?_, by simp [afterAll, after]⟩
      · rcases List.mem_append.1 ht with hold | hnew
        · exact hvalid.committed_lt t hold
        · rwa [List.mem_singleton.1 hnew]
      · change (h.committed ++ [token]).length ≤ spec.capacity
        rw [List.length_append, List.length_singleton]
        exact hroom
  | encode tokens =>
    rw [TokenHistory.perform, plan]
    split_ifs with hempty hused
    · exact hvalid
    · exact hvalid
    · obtain ⟨hcommitted, hpending⟩ := not_or.1 hused
      have hlength : h.committed.length = 0 := by rw [not_not.1 hcommitted]; rfl
      rw [← hlength]
      exact hvalid.entering _ (Option.not_isSome_iff_eq_none.1 hpending)
  | decodeOne token =>
    rw [TokenHistory.perform, plan]
    split_ifs with hpending
    · exact hvalid
    · exact hvalid.entering _ (Option.not_isSome_iff_eq_none.1 hpending)
  | truncate length =>
    rw [TokenHistory.perform, plan]
    split_ifs
    · exact hvalid
    · refine ⟨fun t ht => hvalid.committed_lt t (List.mem_of_mem_take ht), ?_, by simp [after]⟩
      exact (List.length_take_le' _ _).trans hvalid.length_le
  | reset => exact ⟨by simp [TokenHistory.perform, plan, after], Nat.zero_le _, by
      simp [TokenHistory.perform, plan, after]⟩

/-- Valid tokens all enter an empty session. -/
theorem entering_of_valid {tokens : List ℕ} (hlt : ∀ token ∈ tokens, token < spec.vocabSize)
    {committed : ℕ} (hle : committed + tokens.length ≤ spec.capacity) :
    entering spec committed tokens = (tokens.flatMap enter, none) := by
  induction tokens generalizing committed with
  | nil => rfl
  | cons token tokens ih =>
    rw [List.forall_mem_cons] at hlt
    rw [List.length_cons] at hle
    have hrefusal : refusal spec committed token = none :=
      refusal_eq_none_iff.2 ⟨hlt.1, by omega⟩
    rw [TokenHistory.entering, hrefusal]
    dsimp only
    rw [ih hlt.2 (by omega), List.flatMap_cons]

/-- The first committed tokens of a history, as if nothing else had been given to a session. -/
theorem Valid.take {h : TokenHistory} (hvalid : Valid spec h) (length : ℕ) :
    (∀ token ∈ h.committed.take length, token < spec.vocabSize) ∧
      (h.committed.take length).length ≤ spec.capacity :=
  ⟨fun token htoken => hvalid.committed_lt token (List.mem_of_mem_take htoken),
    (List.length_take_le' _ _).trans hvalid.length_le⟩

/-- Tokens of the vocabulary as a session is given them. -/
theorem exists_tokens {tokens : List ℕ}
    (h : (∀ token ∈ tokens, token < spec.vocabSize) ∧ tokens.length ≤ spec.capacity) :
    ∃ words : List UInt32, words.map UInt32.toNat = tokens := by
  refine ⟨tokens.map UInt32.ofNat, ?_⟩
  rw [List.map_map, List.map_congr_left (g := id) fun token htoken => ?_, List.map_id]
  have hdim := spec.vocabSize_mem.2
  exact UInt32.toNat_ofNat_of_lt' ((h.1 token htoken).trans_le (hdim.trans (by decide)))

/-- A truncation to a part of the committed tokens keeps that part. -/
theorem perform_truncate {h : TokenHistory} {length : ℕ} (hle : length ≤ h.committed.length) :
    perform spec (.truncate length) h =
      (.ok none, ⟨h.committed.take length, none, h.committed.take length, true⟩) := by
  rw [perform, plan, if_neg (Nat.not_lt.2 hle)]
  rfl

/-- Events that enter tokens behind committed ones. -/
theorem afterAll_flatMap_enter (tokens : List ℕ) {h : TokenHistory} (hne : tokens ≠ []) :
    h.afterAll (tokens.flatMap enter) =
      ⟨h.committed ++ tokens, none, h.committed ++ tokens, true⟩ := by
  induction tokens generalizing h with
  | nil => exact absurd rfl hne
  | cons token tokens ih =>
    rw [List.flatMap_cons, afterAll_append, afterAll_enter]
    by_cases hempty : tokens = []
    · subst hempty
      rfl
    · rw [ih hempty, entered, List.append_assoc, List.singleton_append]

/-- A fresh session accepts a prompt of valid tokens. -/
theorem perform_encode {tokens : List UInt32} (hne : tokens.map UInt32.toNat ≠ [])
    (h : (∀ token ∈ tokens.map UInt32.toNat, token < spec.vocabSize) ∧
      (tokens.map UInt32.toNat).length ≤ spec.capacity) :
    perform spec (.encode tokens) fresh = (.ok (some (spec.logitsOf (tokens.map UInt32.toNat))),
      ⟨tokens.map UInt32.toNat, none, tokens.map UInt32.toNat, true⟩) := by
  have hne' : tokens ≠ [] := fun hnil => hne (congrArg _ hnil)
  have hused : ¬ (fresh.committed ≠ [] ∨ fresh.pending.isSome = true) := by decide
  rw [perform, plan, if_neg hne', if_neg hused,
    entering_of_valid h.1 (by rw [Nat.zero_add]; exact h.2)]
  dsimp only
  rw [afterAll_flatMap_enter _ hne]
  refine congrArg (·, _) (congrArg (fun logits => Except.ok (some logits)) ?_)
  exact if_neg hne

/-! ### The shadow -/

variable (spec) in
/-- A call without interruption leaves the shadow up to date. -/
theorem synced_perform (call : PortableSessionCallV1) {h : TokenHistory}
    (hsynced : h.synced = true) :
    (perform spec call h).2.synced = true := by
  have hentering (tokens : List ℕ) (hpending : h.pending = none) :
      (h.afterAll (entering spec h.committed.length tokens).1).synced = true := by
    obtain ⟨k, -, -, -, -, hafter⟩ := afterAll_entering spec tokens h hpending
    rw [hafter]
    split_ifs
    · exact hsynced
    · rfl
  cases call with
  | stageToken token =>
    rw [perform, plan]
    split_ifs
    · exact hsynced
    · cases refusal spec h.committed.length token.toNat with
      | some e => exact hsynced
      | none => exact hsynced
  | advanceKv =>
    rw [perform, plan]
    cases h.pending with
    | none => exact hsynced
    | some token => rfl
  | encode tokens =>
    rw [perform, plan]
    split_ifs with hempty hused
    · exact hsynced
    · exact hsynced
    · obtain ⟨hcommitted, hpending⟩ := not_or.1 hused
      have hlength : h.committed.length = 0 := by rw [not_not.1 hcommitted]; rfl
      rw [← hlength]
      exact hentering _ (Option.not_isSome_iff_eq_none.1 hpending)
  | decodeOne token =>
    rw [perform, plan]
    split_ifs with hpending
    · exact hsynced
    · exact hentering _ (Option.not_isSome_iff_eq_none.1 hpending)
  | truncate length =>
    rw [perform, plan]
    split_ifs
    · exact hsynced
    · rfl
  | reset => rfl

end TokenHistory

end NNIS
