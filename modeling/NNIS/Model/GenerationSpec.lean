import NNIS.Decoding.Greedy
import NNIS.Model.SessionVerify

/-!
# Generation in a session

What the greedy generations of a session do, on any driver. A program runs on a driver that never
changes, and the session holds a state of the decoder whenever no call has been refused. So each
program has one triple: from a session that holds a state it leaves a session that holds a later
one, or the driver does not accept every call.

## Main definitions

* `Driver.Accepts`, `Session.Holds`.
* `Session.deviceTarget`, `Session.prompted` — the decoder with the choice made on the device, and
  its state after a prompt.
* `GenerationConfig.stops`, `Session.continuation` — the greedy tokens after a prompt.

## Main results

* `Session.generate_spec`.
-/

set_option autoImplicit false

namespace NNIS

/-- The environment accepts every call. -/
def Driver.Accepts (driver : Driver) : Prop := ∀ history site, driver history site = none

/-- The end-of-sequence token of a generation. -/
def GenerationConfig.stops (generation : GenerationConfig) (token : UInt32) : Bool :=
  decide (generation.eosTokenId = some token)

namespace Session

variable {V : Type} {rt : Pipeline V}

/-! ### The decoder -/

/-- The decoder of a session with the choice made on the device. -/
def deviceTarget (rt : Pipeline V) : Target (Decoder.State (KvRow V) (List F32)) UInt32 :=
  rt.decoder.target rt.topOne

/-- The start of a sequence, with the logits left over. -/
def start (logits : List F32) : Decoder.State (KvRow V) (List F32) := ⟨0, fun _ => [], logits⟩

/-- The state after a prompt. -/
def prompted (rt : Pipeline V) (inputIds : List UInt32) : Decoder.State (KvRow V) (List F32) :=
  (deviceTarget rt).advance inputIds (start [])

/-- The greedy tokens after a prompt, up to the end of the sequence. -/
def continuation (rt : Pipeline V) (inputIds : List UInt32) (generation : GenerationConfig) :
    List UInt32 :=
  (deviceTarget rt).greedyUntil generation.stops generation.maxNewTokens (prompted rt inputIds)

/-- The state after the greedy tokens. -/
def generated (rt : Pipeline V) (inputIds : List UInt32) (generation : GenerationConfig) :
    Decoder.State (KvRow V) (List F32) :=
  (deviceTarget rt).advance (continuation rt inputIds generation) (prompted rt inputIds)

/-- A prompt that is not empty writes over the logits left over. -/
theorem advance_start {inputIds : List UInt32} (h : inputIds ≠ []) (logits : List F32) :
    (deviceTarget rt).advance inputIds (start logits) = prompted rt inputIds := by
  cases inputIds with
  | nil => exact absurd rfl h
  | cons token rest =>
    have hstep : rt.decoder.step token (start logits) = rt.decoder.step token (start []) :=
      rt.decoder.step_congr ⟨rfl, rfl⟩ token
    exact congrArg ((deviceTarget rt).advance rest) hstep

theorem position_advance (tokens : List UInt32) (c : Decoder.State (KvRow V) (List F32)) :
    ((deviceTarget rt).advance tokens c).position = c.position + tokens.length :=
  rt.decoder.position_advance rt.topOne tokens c

theorem aligned_advance {c : Decoder.State (KvRow V) (List F32)}
    (h : c.Aligned rt.config.numHiddenLayers) (tokens : List UInt32) :
    ((deviceTarget rt).advance tokens c).Aligned rt.config.numHiddenLayers :=
  rt.decoder.aligned_advance rt.topOne h tokens

theorem aligned_start (logits : List F32) :
    (start logits : Decoder.State (KvRow V) (List F32)).Aligned rt.config.numHiddenLayers :=
  fun _ _ => rfl

theorem aligned_prompted (inputIds : List UInt32) :
    (prompted rt inputIds).Aligned rt.config.numHiddenLayers :=
  aligned_advance (aligned_start []) inputIds

theorem position_prompted (inputIds : List UInt32) :
    (prompted rt inputIds).position = inputIds.length := by
  rw [prompted, position_advance, start, Nat.zero_add]

theorem position_generated (inputIds : List UInt32) (generation : GenerationConfig) :
    (generated rt inputIds generation).position =
      inputIds.length + (continuation rt inputIds generation).length := by
  rw [generated, position_advance, position_prompted]

/-! ### Sessions on a driver -/

/-- The session is on a driver and holds a state of the decoder. -/
structure Holds (driver : Driver) (c : Decoder.State (KvRow V) (List F32)) (s : Session rt) :
    Prop where
  driver_eq : s.stream.driver = driver
  core_eq : s.core = c

/-- The session holds a state of the decoder and a current token. -/
structure HoldsToken (driver : Driver) (c : Decoder.State (KvRow V) (List F32)) (token : UInt32)
    (s : Session rt) : Prop extends Holds driver c s where
  currentToken_eq : s.currentToken = token

variable {driver : Driver} {c : Decoder.State (KvRow V) (List F32)} {token : UInt32}
  {s₀ s : Session rt}

theorem Holds.refl (s : Session rt) : Holds s.stream.driver s.core s := ⟨rfl, rfl⟩

theorem Holds.called {kind : CallRecord → Prop} (h : Holds driver c s₀) (hs : Called kind s₀ s) :
    Holds driver c s :=
  ⟨hs.since.driver_eq.trans h.driver_eq, hs.core_eq.trans h.core_eq⟩

theorem HoldsToken.called {kind : CallRecord → Prop} (h : HoldsToken driver c token s₀)
    (hs : Called kind s₀ s) : HoldsToken driver c token s :=
  ⟨h.toHolds.called hs, hs.currentToken_eq.trans h.currentToken_eq⟩

theorem Holds.aligned (h : Holds driver c s) (hc : c.Aligned rt.config.numHiddenLayers) :
    s.Aligned := by
  unfold Aligned
  rwa [h.core_eq]

theorem Holds.position_eq (h : Holds driver c s) : s.position = c.position :=
  congrArg Decoder.State.position h.core_eq

theorem Holds.logits_eq (h : Holds driver c s) : s.logits = c.output :=
  congrArg Decoder.State.output h.core_eq

/-- A session on a driver that accepts every call has no refused call. -/
theorem not_accepts (hdriver : s.stream.driver = driver) (h : ¬ s.stream.Accepting) :
    ¬ driver.Accepts := fun ha => h fun history site => hdriver ▸ ha history site

/-! ### Calls -/

/-- A call keeps what only calls change the stream of. -/
theorem call_keeping {P : Session rt → Prop} (hdriver : ∀ s, P s → s.stream.driver = driver)
    (hP : ∀ s s', P s → Called anyCall s s' → P s') (site : CallSite) :
    Fallible.Spec P (call site) (fun _ => P) fun _ _ => ¬ driver.Accepts :=
  Fallible.Spec.of_forall fun s₁ hs₁ =>
    (s₁.call_spec site (fun _ => true) (fun _ => (trivial : anyCall _)) rfl).conseq
      (fun _ hs => hs) (fun _ _ hs => hP s₁ _ hs₁ hs) fun _ _ ⟨hs, hr⟩ =>
        not_accepts (hs.since.driver_eq.trans (hdriver s₁ hs₁)) hr.2

theorem call_holds (site : CallSite) :
    Fallible.Spec (Holds driver c) (call site : Fallible (Session rt) NnisError PUnit)
      (fun _ => Holds driver c) fun _ _ => ¬ driver.Accepts :=
  call_keeping (fun _ h => h.driver_eq) (fun _ _ h hs => h.called hs) site

theorem call_holdsToken (site : CallSite) :
    Fallible.Spec (HoldsToken driver c token) (call site : Fallible (Session rt) NnisError PUnit)
      (fun _ => HoldsToken driver c token) fun _ _ => ¬ driver.Accepts :=
  call_keeping (fun _ h => h.driver_eq) (fun _ _ h hs => h.called hs) site

/-- Submitted work after the wait for it. -/
theorem finish_holds {α : Type} {m : Fallible (Session rt) NnisError α} {P : Session rt → Prop}
    {Q : α → Session rt → Prop} (hdriver : ∀ a s, Q a s → s.stream.driver = driver)
    (hQ : ∀ a s s', Q a s → Called noHead s s' → Q a s')
    (h : Fallible.Spec P m Q fun _ _ => ¬ driver.Accepts) :
    Fallible.Spec P (m.attempt >>= finish) Q fun _ _ => ¬ driver.Accepts := by
  refine (attempt_finish_spec h).conseq (fun _ hs => hs) ?_ ?_
  · rintro a s ⟨s₁, hs₁, hs⟩
    exact hQ a s₁ s hs₁ hs
  · rintro e s (⟨s₁, hr, -⟩ | ⟨a, s₁, hs₁, hs, hr⟩)
    · exact hr
    · exact not_accepts (hs.since.driver_eq.trans (hdriver a s₁ hs₁)) hr

/-- The wait after work that was submitted. -/
theorem finish_ok_holds {α : Type} (a : α) :
    Fallible.Spec (Holds driver c) (finish (.ok a) : Fallible (Session rt) NnisError α)
      (fun _ => Holds driver c) fun _ _ => ¬ driver.Accepts := by
  refine Fallible.Spec.bind (R := Fallible.Spec.Returned (fun _ => Holds driver c)
    fun _ _ => ¬ driver.Accepts) (Fallible.Spec.attempt (call_holds _)) fun r => ?_
  cases r with
  | ok u => exact Fallible.Spec.pure _ fun _ hs => hs
  | error e => exact Fallible.Spec.fail _ fun _ hs => hs

/-- The wait after work whose submission failed. -/
theorem finish_error_holds {α : Type} (e : NnisError) :
    Fallible.Spec (fun _ => ¬ driver.Accepts)
      (finish (.error e) : Fallible (Session rt) NnisError α)
      (fun _ _ => False) fun _ _ => ¬ driver.Accepts := by
  refine Fallible.Spec.bind (R := fun _ _ => ¬ driver.Accepts) ?_ fun _ =>
    Fallible.Spec.fail _ fun _ hs => hs
  intro s hs
  rw [Fallible.run_attempt]
  exact hs

/-! ### Tokens -/

/-- Encoding the current token makes one step of the decoder. -/
theorem enqueueCurrentToken_holds (hc : c.Aligned rt.config.numHiddenLayers)
    (hposition : c.position < rt.config.maxPositionEmbeddings) :
    Fallible.Spec (HoldsToken driver c token)
      (enqueueCurrentToken : Fallible (Session rt) NnisError PUnit)
      (fun _ => Holds driver (rt.decoder.step token c)) fun _ _ => ¬ driver.Accepts := by
  refine Fallible.Spec.of_forall fun s₁ hs₁ => s₁.enqueueCurrentToken_spec.conseq
    (fun _ hs => hs) (fun _ _ hs => ⟨hs.since.driver_eq.trans hs₁.driver_eq, ?_⟩) fun _ _ hs => ?_
  · rw [hs.core_eq, hs₁.currentToken_eq, hs₁.core_eq]
  · have hroom : s₁.Room := (hs₁.aligned hc).room (hs₁.position_eq ▸ hposition)
    exact not_accepts (hs.since.driver_eq.trans hs₁.driver_eq)
      (hs.not_accepting.resolve_right (not_not.2 hroom))

/-- The device picks the token of its choice. -/
theorem enqueueTopOne_holds :
    Fallible.Spec (Holds driver c) (enqueueTopOne : Fallible (Session rt) NnisError PUnit)
      (fun _ => HoldsToken driver c ((deviceTarget rt).choose c)) fun _ _ => ¬ driver.Accepts :=
  Fallible.Spec.bind (call_holds .topOne) fun _ => Fallible.Spec.modify _ fun _ hs =>
    ⟨⟨hs.driver_eq, hs.core_eq⟩, congrArg rt.topOne hs.logits_eq⟩

/-- Decoding a token of the vocabulary that fits returns the logits after it. -/
theorem decodeOne_holds (hc : c.Aligned rt.config.numHiddenLayers)
    (htoken : token.toNat < rt.config.vocabSize)
    (hposition : c.position < rt.config.maxPositionEmbeddings) :
    Fallible.Spec (Holds driver c) (decodeOne token : Fallible (Session rt) NnisError (List F32))
      (fun logits s => Holds driver (rt.decoder.step token c) s ∧
        logits = (rt.decoder.step token c).output) fun _ _ => ¬ driver.Accepts := by
  refine Fallible.Spec.of_forall fun s₁ hs₁ => (s₁.decodeOne_spec token).conseq
    (fun _ hs => hs) ?_ fun _ _ hs => ?_
  · rintro logits s ⟨hs, rfl⟩
    have hcore : s.core = rt.decoder.step token c := hs.core_eq.trans (congrArg _ hs₁.core_eq)
    exact ⟨⟨hs.since.driver_eq.trans hs₁.driver_eq, hcore⟩, congrArg Decoder.State.output hcore⟩
  · exact not_accepts (hs.since.driver_eq.trans hs₁.driver_eq)
      (hs.not_accepting (hs₁.aligned hc) htoken (hs₁.position_eq ▸ hposition))

/-- A reset goes back to the start of a sequence. -/
theorem reset_holds :
    Fallible.Spec (Holds driver c) (reset : Fallible (Session rt) NnisError PUnit)
      (fun _ => Holds driver (start c.output)) fun _ _ => ¬ driver.Accepts := by
  refine Fallible.Spec.bind (call_holds (.synchronize .reset)) fun _ =>
    Fallible.Spec.modify _ fun s hs => ⟨hs.driver_eq, Decoder.State.ext rfl (funext fun l => ?_)
      hs.logits_eq⟩
  show s.cache.reset.rows l = []
  rw [KvCache.reset, KvCache.rows_fillLengths _ _ fun _ _ => Nat.zero_le _, List.take_zero]

/-- A prompt advances the session by its tokens. -/
theorem enqueuePrefill_holds {inputIds : List UInt32} (hc : c.Aligned rt.config.numHiddenLayers)
    (hcapacity : c.position + inputIds.length ≤ rt.config.maxPositionEmbeddings) :
    Fallible.Spec (Holds driver c) (enqueuePrefill inputIds : Fallible (Session rt) NnisError PUnit)
      (fun _ => Holds driver ((deviceTarget rt).advance inputIds c))
      fun _ _ => ¬ driver.Accepts := by
  -- The tokens before those still to be encoded.
  let Encoded (rest : List (UInt32 × ℕ)) (s : Session rt) : Prop := ∃ before,
    inputIds = before ++ rest.map Prod.fst ∧ Holds driver ((deviceTarget rt).advance before c) s
  refine (Fallible.Spec.forEach Encoded _ fun (token, index) rest =>
    Fallible.Spec.of_forall fun s₁ ⟨before, hids, hs₁⟩ => ?_).conseq
      (fun s hs => ⟨[], ?_, hs⟩) ?_ fun _ _ hs => hs
  · have hlength : before.length + 1 ≤ inputIds.length := by
      rw [hids, List.length_append, List.map_cons, List.length_cons]
      omega
    refine Fallible.Spec.bind ((call_holds _).conseq (fun s hs => hs ▸ hs₁) (fun _ _ hs => hs)
      fun _ _ hs => hs) fun _ => Fallible.Spec.bind (R := fun _ =>
        HoldsToken driver ((deviceTarget rt).advance before c) token)
        (Fallible.Spec.modify _ fun s hs => ⟨⟨hs.driver_eq, hs.core_eq⟩, rfl⟩) fun _ =>
          (enqueueCurrentToken_holds (aligned_advance hc before) ?_).conseq (fun _ hs => hs)
            (fun _ _ hs => ⟨before ++ [token], ?_, ?_⟩) fun _ _ hs => hs
    · rw [position_advance]
      omega
    · rw [hids, List.map_cons, List.append_assoc, List.singleton_append]
    · rw [Target.advance_concat]
      exact hs
  · rw [List.nil_append, List.zipIdx_map_fst]
  · rintro - s ⟨before, hids, hs⟩
    rw [List.map_nil, List.append_nil] at hids
    exact hids ▸ hs

/-! ### Admission -/

theorem validatePrompt_eq_ok_iff {inputIds : List UInt32} {extraTokens : ℕ} :
    validatePrompt rt inputIds extraTokens = .ok ⟨⟩ ↔ inputIds ≠ [] ∧
      (∀ token ∈ inputIds, token.toNat < rt.config.vocabSize) ∧
        inputIds.length + extraTokens ≤ rt.config.maxPositionEmbeddings := by
  have hlimit := maxPositionEmbeddings_lt rt.config
  rw [← forM_validateToken_eq_ok_iff]
  unfold validatePrompt
  split_ifs with hempty
  · exact iff_of_false (by rintro ⟨⟩) fun h => absurd hempty h.1
  · show (inputIds.forM (validateToken rt) >>= fun _ => _) = _ ↔ _
    cases inputIds.forM (validateToken rt) with
    | error e => exact iff_of_false (by rintro ⟨⟩) (by rintro ⟨-, ⟨⟩, -⟩)
    | ok u =>
      show (orInvalid _ (checkedAdd inputIds.length extraTokens) >>= fun total => _) = _ ↔ _
      by_cases hfit : inputIds.length + extraTokens < wordLimit
      · rw [checkedAdd_of_lt hfit]
        show (if rt.config.maxPositionEmbeddings < _ then _ else _) = _ ↔ _
        split_ifs with hlt
        · exact iff_of_false (by rintro ⟨⟩) fun h => absurd h.2.2 (Nat.not_le.2 hlt)
        · exact iff_of_true rfl ⟨hempty, rfl, Nat.not_lt.1 hlt⟩
      · refine iff_of_false ?_ fun h => hfit (h.2.2.trans_lt hlimit)
        rw [checkedAdd, if_neg hfit]
        rintro ⟨⟩

/-- A prompt that fits with some tokens fits with fewer. -/
theorem validatePrompt_mono {inputIds : List UInt32} {m n : ℕ} (hmn : m ≤ n)
    (h : validatePrompt rt inputIds n = .ok ⟨⟩) : validatePrompt rt inputIds m = .ok ⟨⟩ := by
  obtain ⟨hempty, htokens, hfit⟩ := validatePrompt_eq_ok_iff.1 h
  exact validatePrompt_eq_ok_iff.2 ⟨hempty, htokens, by omega⟩

/-! ### Prefill -/

section Admitted

variable {inputIds : List UInt32} {n : ℕ}

/-- The work of a prompt from the start of a sequence. -/
theorem enqueuePrompt_holds (h : validatePrompt rt inputIds n = .ok ⟨⟩) (logits : List F32) :
    Fallible.Spec (Holds driver (start logits))
      (enqueuePrefill inputIds : Fallible (Session rt) NnisError PUnit)
      (fun _ => Holds driver (prompted rt inputIds)) fun _ _ => ¬ driver.Accepts := by
  obtain ⟨hempty, -, hfit⟩ := validatePrompt_eq_ok_iff.1 h
  refine (enqueuePrefill_holds (aligned_start logits) ?_).conseq (fun _ hs => hs)
    (fun _ _ hs => ?_) fun _ _ hs => hs
  · show 0 + inputIds.length ≤ _
    omega
  · rwa [advance_start hempty] at hs

theorem prefill_holds (h : validatePrompt rt inputIds 0 = .ok ⟨⟩) :
    Fallible.Spec (Holds driver c) (prefill inputIds : Fallible (Session rt) NnisError (List F32))
      (fun logits s => Holds driver (prompted rt inputIds) s ∧
        logits = (prompted rt inputIds).output) fun _ _ => ¬ driver.Accepts := by
  unfold prefill
  rw [h, Fallible.ofExcept_ok_bind]
  refine Fallible.Spec.bind reset_holds fun _ => Fallible.Spec.bind (call_holds _) fun _ => ?_
  rw [← bind_assoc]
  refine Fallible.Spec.bind (finish_holds (fun _ _ hs => hs.driver_eq)
    (fun _ _ _ hs hc => hs.called hc) (enqueuePrompt_holds h _)) fun _ =>
      Fallible.Spec.bind (call_holds _) fun _ => Fallible.Spec.bind
        (R := fun s' s => s' = s ∧ Holds driver (prompted rt inputIds) s)
        (Fallible.Spec.get fun s hs => ⟨rfl, hs⟩) fun s' => Fallible.Spec.pure _ ?_
  rintro s ⟨rfl, hs⟩
  exact ⟨hs, hs.logits_eq⟩

/-- A prefill returns the logits after its prompt. It fails when the prompt is not admitted, or on a
driver that does not accept every call. -/
theorem prefill_spec (inputIds : List UInt32) :
    Fallible.Spec (Holds driver c) (prefill inputIds : Fallible (Session rt) NnisError (List F32))
      (fun logits s => validatePrompt rt inputIds 0 = .ok ⟨⟩ ∧
        Holds driver (prompted rt inputIds) s ∧ logits = (prompted rt inputIds).output)
      fun _ _ => ¬ (driver.Accepts ∧ validatePrompt rt inputIds 0 = .ok ⟨⟩) := by
  cases h : validatePrompt rt inputIds 0 with
  | error e =>
    unfold prefill
    rw [h]
    exact fun _ _ => fun ha => nomatch ha.2
  | ok u =>
    exact (prefill_holds h).conseq (fun _ hs => hs) (fun _ _ hs => ⟨rfl, hs⟩)
      fun _ _ hs ha => hs ha.1

/-! ### Greedy generation -/

/-- The tokens picked one after the other. -/
theorem greedy_succ (n : ℕ) (c : Decoder.State (KvRow V) (List F32)) :
    (deviceTarget rt).greedy (n + 1) c = (deviceTarget rt).greedy n c ++
      [(deviceTarget rt).choose ((deviceTarget rt).advance ((deviceTarget rt).greedy n c) c)] :=
  (deviceTarget rt).greedy_add n 1 c

/-- One round of a fixed generation. -/
private theorem fixedRound_holds (hc : c.Aligned rt.config.numHiddenLayers) {step : ℕ}
    (hposition : c.position + step < rt.config.maxPositionEmbeddings) (tokens : List UInt32) :
    Fallible.Spec
      (fun s : Session rt => tokens = (deviceTarget rt).greedy step c ∧
        Holds driver ((deviceTarget rt).advance tokens c) s)
      (do
        enqueueTopOne
        call (.recordToken step)
        let s ← Fallible.get
        enqueueCurrentToken
        return tokens ++ [s.currentToken])
      (fun tokens s => tokens = (deviceTarget rt).greedy (step + 1) c ∧
        Holds driver ((deviceTarget rt).advance tokens c) s) fun _ _ => ¬ driver.Accepts := by
  refine Fallible.Spec.of_forall fun s₁ ⟨htokens, hs₁⟩ => ?_
  have hlength : tokens.length = step := by rw [htokens, Target.length_greedy]
  refine Fallible.Spec.bind (enqueueTopOne_holds.conseq (fun s hs => hs ▸ hs₁)
    (fun _ _ hs => hs) fun _ _ hs => hs) fun _ => Fallible.Spec.bind (call_holdsToken _) fun _ =>
      Fallible.Spec.of_forall fun s₂ hs₂ => Fallible.Spec.get_bind ?_
  refine Fallible.Spec.bind ((enqueueCurrentToken_holds (aligned_advance hc tokens) ?_).conseq
    (fun s hs => hs ▸ hs₂) (fun _ _ hs => hs) fun _ _ hs => hs) fun _ =>
      Fallible.Spec.pure _ fun s hs => ⟨?_, ?_⟩
  · rw [position_advance]
    omega
  · rw [hs₂.currentToken_eq, htokens, greedy_succ]
  · rw [hs₂.currentToken_eq, Target.advance_concat]
    exact hs

theorem generateFixed_holds (h : validatePrompt rt inputIds n = .ok ⟨⟩) :
    Fallible.Spec (Holds driver c)
      (generateFixed inputIds n : Fallible (Session rt) NnisError (List UInt32))
      (fun tokens s => tokens = (deviceTarget rt).greedy n (prompted rt inputIds) ∧
        Holds driver ((deviceTarget rt).advance tokens (prompted rt inputIds)) s)
      fun _ _ => ¬ driver.Accepts := by
  obtain ⟨-, -, hfit⟩ := validatePrompt_eq_ok_iff.1 h
  refine Fallible.Spec.bind reset_holds fun _ => Fallible.Spec.bind (call_holds _) fun _ =>
    Fallible.Spec.bind (call_holds _) fun _ => ?_
  rw [← bind_assoc]
  refine Fallible.Spec.bind (finish_holds (Q := fun tokens s =>
    tokens = (deviceTarget rt).greedy n (prompted rt inputIds) ∧
      Holds driver ((deviceTarget rt).advance tokens (prompted rt inputIds)) s)
    (fun _ _ hs => hs.2.driver_eq) (fun _ _ _ hs hc => ⟨hs.1, hs.2.called hc⟩) ?_)
      fun tokens => Fallible.Spec.of_forall fun s₁ hs₁ => ?_
  · refine Fallible.Spec.bind (enqueuePrompt_holds h _) fun _ =>
      (Fallible.Spec.foldRange (fun step tokens s =>
        tokens = (deviceTarget rt).greedy step (prompted rt inputIds) ∧
          Holds driver ((deviceTarget rt).advance tokens (prompted rt inputIds)) s) n []
        fun step hstep tokens => fixedRound_holds (aligned_prompted inputIds) (by
          rw [position_prompted]
          omega) tokens).conseq (fun _ hs => ⟨rfl, hs⟩) (fun _ _ hs => hs) fun _ _ hs => hs
  · exact Fallible.Spec.bind ((call_holds _).conseq (fun s hs => hs ▸ hs₁.2) (fun _ _ hs => hs)
      fun _ _ hs => hs) fun _ => Fallible.Spec.pure _ fun s hs => ⟨hs₁.1, hs⟩

/-- The rounds that observe each token on the host. A round after the end of the sequence would
start from a fed token, so the tokens fed are the tokens returned. -/
theorem generateUntilEosLoop_holds (eosTokenId : UInt32) (rounds : ℕ) (before : List UInt32)
    (hc : c.Aligned rt.config.numHiddenLayers)
    (hposition : c.position + rounds ≤ rt.config.maxPositionEmbeddings) :
    Fallible.Spec (Holds driver c)
      (generateUntilEosLoop eosTokenId rounds before :
        Fallible (Session rt) NnisError (List UInt32))
      (fun tokens s =>
        let more := (deviceTarget rt).greedyUntil (fun t => decide (eosTokenId = t)) rounds c
        tokens = before ++ more ∧ Holds driver ((deviceTarget rt).advance more c) s)
      fun _ _ => ¬ driver.Accepts := by
  induction rounds generalizing c before with
  | zero =>
    exact Fallible.Spec.bind (finish_ok_holds PUnit.unit) fun _ =>
      Fallible.Spec.pure _ fun s hs => ⟨(List.append_nil _).symm, hs⟩
  | succ rounds ih =>
    unfold generateUntilEosLoop
    rw [← bind_assoc]
    refine Fallible.Spec.bind (finish_holds (fun _ _ hs => hs.driver_eq)
      (fun _ _ _ hs hc => hs.called hc) (Fallible.Spec.bind enqueueTopOne_holds fun _ =>
        call_holdsToken .downloadToken)) fun _ => Fallible.Spec.of_forall fun s₁ hs₁ =>
          Fallible.Spec.get_bind ?_
    generalize htoken : s₁.currentToken = token
    obtain rfl : token = (deviceTarget rt).choose c := htoken.symm.trans hs₁.currentToken_eq
    have hstep := aligned_advance hc [(deviceTarget rt).choose c]
    refine Fallible.Spec.bind (R := Fallible.Spec.Returned
      (fun _ => Holds driver ((deviceTarget rt).step ((deviceTarget rt).choose c) c))
      fun _ _ => ¬ driver.Accepts) (Fallible.Spec.attempt
        ((enqueueCurrentToken_holds hc (by omega)).conseq (fun s hs => hs ▸ hs₁)
          (fun _ _ hs => hs) fun _ _ hs => hs)) fun r => ?_
    cases r with
    | error e =>
      rw [if_pos (.inr rfl)]
      exact Fallible.Spec.bind (finish_error_holds e) fun _ => fun s hs => absurd hs id
    | ok u =>
      have hcond : ((deviceTarget rt).choose c = eosTokenId ∨
          (Except.ok u : Except NnisError PUnit).toOption.isNone = true) ↔
            (deviceTarget rt).choose c = eosTokenId := or_iff_left Bool.false_ne_true
      simp only [hcond]
      rw [Target.greedyUntil]
      by_cases heos : (deviceTarget rt).choose c = eosTokenId
      · rw [if_pos heos, if_pos heos, if_pos (decide_eq_true heos.symm)]
        exact Fallible.Spec.bind (finish_ok_holds u) fun _ => Fallible.Spec.pure _ fun s hs =>
          ⟨rfl, hs⟩
      · rw [if_neg heos, if_neg fun h => heos (of_decide_eq_true h).symm]
        refine (ih (before ++ [(deviceTarget rt).choose c]) hstep ?_).conseq (fun _ hs => hs)
          (fun tokens s hs => ⟨?_, hs.2⟩) fun _ _ hs => hs
        · rw [position_advance, List.length_singleton]
          omega
        · exact hs.1.trans (List.append_cons _ _ _).symm

theorem generateUntilEos_holds (eosTokenId : UInt32)
    (h : validatePrompt rt inputIds n = .ok ⟨⟩) :
    Fallible.Spec (Holds driver c)
      (generateUntilEos inputIds n eosTokenId : Fallible (Session rt) NnisError (List UInt32))
      (fun tokens s =>
        tokens = (deviceTarget rt).greedyUntil (fun t => decide (eosTokenId = t)) n
          (prompted rt inputIds) ∧
        Holds driver ((deviceTarget rt).advance tokens (prompted rt inputIds)) s)
      fun _ _ => ¬ driver.Accepts := by
  obtain ⟨-, -, hfit⟩ := validatePrompt_eq_ok_iff.1 h
  refine Fallible.Spec.bind reset_holds fun _ => Fallible.Spec.bind (call_holds _) fun _ => ?_
  rw [← bind_assoc]
  refine Fallible.Spec.bind (finish_holds (fun _ _ hs => hs.driver_eq)
    (fun _ _ _ hs hc => hs.called hc) (enqueuePrompt_holds h _)) fun _ =>
      (generateUntilEosLoop_holds eosTokenId n [] (aligned_prompted inputIds) ?_).conseq
        (fun _ hs => hs) ?_ fun _ _ hs => hs
  · rwa [position_prompted]
  · rintro tokens s ⟨htokens, hs⟩
    rw [List.nil_append] at htokens
    exact ⟨htokens, htokens ▸ hs⟩

end Admitted

/-- A generation passes the checks made before any work. -/
structure Admitted (rt : Pipeline V) (inputIds : List UInt32) (generation : GenerationConfig) :
    Prop where
  generation_ok : validateGeneration rt generation = .ok ⟨⟩
  prompt_ok : validatePrompt rt inputIds generation.maxNewTokens = .ok ⟨⟩

/-- A generation returns the greedy tokens after its prompt, up to the end of the sequence, and has
fed all of them. It fails when it is not admitted, or on a driver that does not accept every
call. -/
theorem generate_spec (inputIds : List UInt32) (generation : GenerationConfig) :
    Fallible.Spec (Holds driver c)
      (generate inputIds generation : Fallible (Session rt) NnisError (List UInt32))
      (fun tokens s => Admitted rt inputIds generation ∧
        tokens = continuation rt inputIds generation ∧
          Holds driver (generated rt inputIds generation) s)
      fun _ _ => ¬ (driver.Accepts ∧ Admitted rt inputIds generation) := by
  refine Fallible.Spec.bind (R := fun _ s => validateGeneration rt generation = .ok ⟨⟩ ∧
    Holds driver c s) (Fallible.Spec.ofExcept (fun _ hok _ hs => ⟨hok, hs⟩)
      fun e he _ _ h => ?_) fun _ => Fallible.Spec.bind (R := fun _ s =>
        Admitted rt inputIds generation ∧ Holds driver c s) (Fallible.Spec.ofExcept
          (fun _ hok _ hs => ⟨⟨hs.1, hok⟩, hs.2⟩) fun e he _ _ h => ?_) fun _ =>
            Fallible.Spec.of_forall fun s₁ ⟨h, hs₁⟩ => ?_
  · exact absurd (he.symm.trans h.2.generation_ok) nofun
  · exact absurd (he.symm.trans h.2.prompt_ok) nofun
  obtain ⟨-, -, hfit⟩ := validatePrompt_eq_ok_iff.1 h.prompt_ok
  cases heos : generation.eosTokenId with
  | none =>
    have hstops : ∀ token, generation.stops token = false := fun token =>
      decide_eq_false (heos ▸ nofun)
    refine (generateFixed_holds h.prompt_ok).conseq (fun s hs => hs ▸ hs₁) ?_
      fun _ _ hs ha => hs ha.1
    rintro tokens s ⟨htokens, hs⟩
    have hcontinuation : tokens = continuation rt inputIds generation := by
      rw [htokens, continuation, Target.greedyUntil_of_never _ hstops]
    refine ⟨h, hcontinuation, ?_⟩
    rw [generated, ← hcontinuation]
    exact hs
  | some eosTokenId =>
    have hstops : generation.stops = fun token => decide (eosTokenId = token) := by
      funext token
      rw [GenerationConfig.stops, heos]
      exact decide_eq_decide.2 (Option.some_inj)
    refine (generateUntilEos_holds eosTokenId h.prompt_ok).conseq (fun s hs => hs ▸ hs₁) ?_
      fun _ _ hs ha => hs ha.1
    rintro tokens s ⟨htokens, hs⟩
    have hcontinuation : tokens = continuation rt inputIds generation := by
      rw [htokens, continuation, hstops]
    refine ⟨h, hcontinuation, ?_⟩
    rw [generated, ← hcontinuation]
    exact hs

end Session

end NNIS
