import NNIS.Kernels.TopK
import NNIS.Model.F16GenerationProfile
import NNIS.Model.GenerationSpec
import NNIS.Model.SampledGeneration
import NNIS.Model.SamplingSpec
import NNIS.Model.SessionLossless

/-!
# Agreement of the generations

Greedy generation with an end-of-sequence token, greedy generation of a fixed length, sampled
generation with one candidate and profiled generation are four loops that pick and feed tokens. What
each of them returns is stated in terms of the greedy tokens of one decoder, so they agree.

## Main definitions

* `Session.FinitePicks` — finite logits where tokens are picked.
* `Session.GreedyAgreement` — what greedy generation returns.
* `InferenceSession.SampledAgreement`, `F16ReferenceSession.ProfileAgreement`.

## Main results

* `InferenceSession.generations_agree`.
-/

set_option autoImplicit false

namespace NNIS

namespace F32TopK

theorem defaultBlockSize_eq : defaultBlockSize = 2 ^ 8 := rfl

/-- The kernels select the first token of the order of the vocabulary. -/
theorem topOne_eq_head (k : ℕ) {logits : List F32} {order : List ℕ} (h : Ranking logits order)
    (hpos : 0 < logits.length) (hlength : logits.length ≤ UInt32.size)
    (hfinite : ∀ x ∈ logits, x.isFinite = true) :
    topOne (2 ^ k) logits = UInt32.ofNat (order.headD 0) := by
  have hmem : ∀ token, token ∈ order ↔ token < logits.length := fun token =>
    h.perm.mem_iff.trans List.mem_range
  have hsorted := h.sorted
  cases order with
  | nil => exact absurd ((hmem 0).2 hpos) List.not_mem_nil
  | cons token rest =>
    refine topOne_eq k ((hmem token).1 List.mem_cons_self) hlength hfinite
      fun other hother hne => ?_
    have hrest : other ∈ rest := (List.mem_cons.1 ((hmem other).2 hother)).resolve_left hne
    exact (List.pairwise_cons.1 hsorted).1 other hrest

end F32TopK

namespace Session

variable {V : Type} {rt : Pipeline V} {driver : Driver}
  {c : Decoder.State (KvRow V) (List F32)} {token : UInt32}

/-! ### Finite rows -/

/-- The logits held are a row of the vocabulary. -/
def Headed (rt : Pipeline V) (c : Decoder.State (KvRow V) (List F32)) : Prop :=
  c.output.length = rt.config.vocabSize

theorem headed_step (token : UInt32) (c : Decoder.State (KvRow V) (List F32)) :
    Headed rt (rt.decoder.step token c) :=
  rt.length_lmHead _

theorem headed_prompted {inputIds : List UInt32} (h : inputIds ≠ []) :
    Headed rt (prompted rt inputIds) := by
  rw [← List.dropLast_append_getLast h, prompted, Target.advance_concat]
  exact headed_step _ _

/-- The logits held are finite. -/
def FiniteOutput (c : Decoder.State (KvRow V) (List F32)) : Prop :=
  ∀ x ∈ c.output, x.isFinite = true

/-- The logits that the tokens of a generation are picked from are finite. -/
def FinitePicks (rt : Pipeline V) (inputIds : List UInt32) (generation : GenerationConfig) :
    Prop :=
  ∀ c ∈ (deviceTarget rt).picks generation.stops generation.maxNewTokens (prompted rt inputIds),
    FiniteOutput c

/-! ### Greedy generation -/

/-- What greedy generation returns, from any session and on any driver. -/
structure GreedyAgreement (rt : Pipeline V) (inputIds : List UInt32)
    (generation : GenerationConfig) : Prop where
  /-- It returns only when it is admitted, and then whenever every call is accepted. -/
  admitted : ∀ (s s₁ : Session rt) (tokens : List UInt32),
    (generate inputIds generation).run s = (.ok tokens, s₁) → Admitted rt inputIds generation
  returns : ∀ s : Session rt, s.stream.Accepting → Admitted rt inputIds generation →
    ∃ tokens s₁, (generate inputIds generation).run s = (.ok tokens, s₁)
  /-- The tokens are the shortest beginning, up to the end of the sequence, of those without an
  end-of-sequence token, which are the greedy tokens after the prompt. -/
  shortest : ∀ (s s' s₁ s₂ : Session rt) (tokens whole : List UInt32),
    (generate inputIds generation).run s = (.ok tokens, s₁) →
      (generate inputIds { generation with eosTokenId := none }).run s' = (.ok whole, s₂) →
        ShortestUntil generation.stops whole tokens ∧
          whole = (deviceTarget rt).greedy generation.maxNewTokens (prompted rt inputIds)
  /-- The prompt and all tokens have been fed. -/
  position : ∀ (s s₁ : Session rt) (tokens : List UInt32),
    (generate inputIds generation).run s = (.ok tokens, s₁) →
      s₁.position = inputIds.length + tokens.length

/-- The triple of a generation, read on one run. -/
theorem generate_ok {inputIds : List UInt32} {generation : GenerationConfig} {s s₁ : Session rt}
    {tokens : List UInt32} (h : (generate inputIds generation).run s = (.ok tokens, s₁)) :
    Admitted rt inputIds generation ∧ tokens = continuation rt inputIds generation ∧
      Holds s.stream.driver (generated rt inputIds generation) s₁ :=
  (generate_spec inputIds generation).ok (Holds.refl s) h

theorem greedyAgreement (rt : Pipeline V) (inputIds : List UInt32)
    (generation : GenerationConfig) : GreedyAgreement rt inputIds generation where
  admitted s s₁ tokens h := (generate_ok h).1
  returns s hs hadmitted := by
    rcases hrun : (generate inputIds generation).run s with ⟨e | tokens, s₁⟩
    · exact absurd ⟨hs, hadmitted⟩
        ((generate_spec inputIds generation).error (Holds.refl s) hrun)
    · exact ⟨tokens, s₁, rfl⟩
  shortest s s' s₁ s₂ tokens whole h h' := by
    obtain ⟨-, rfl, -⟩ := generate_ok h
    obtain ⟨-, rfl, -⟩ := generate_ok h'
    have hwhole : continuation rt inputIds { generation with eosTokenId := none } =
        (deviceTarget rt).greedy generation.maxNewTokens (prompted rt inputIds) :=
      Target.greedyUntil_of_never _ (fun _ => rfl) _ _
    rw [hwhole]
    exact ⟨Target.greedyUntil_shortest _ _ _ _, rfl⟩
  position s s₁ tokens h := by
    obtain ⟨-, rfl, hs₁⟩ := generate_ok h
    rw [hs₁.position_eq, position_generated]

end Session

namespace InferenceSession

open Session

variable {model : Model} {driver : Driver} {c : Decoder.State (KvRow F32) (List F32)}
  {exp : F64 → F64} {display : F32 → String}

/-! ### Sampled generation -/

/-- A sampled generation between rounds: the session and the local logits hold a state, and the
sampler keeps one candidate. -/
structure Sampling (driver : Driver) (c : Decoder.State (KvRow F32) (List F32))
    (state : InferenceSession model × SampledLocals) : Prop extends Holds driver c state.1 where
  logits_eq : state.2.logits = c.output
  topK : state.2.sampler.config.topK = some 1
  vocabSize : state.2.sampler.vocabSize = model.config.vocabSize

/-- A draw returns the token that the device would pick. -/
theorem drawToken_holds (hhead : Headed model.pipeline c) (hfin : FiniteOutput c)
    (htop : model.kernels.topOne = F32TopK.topOne F32TopK.defaultBlockSize)
    (hexp : exp (.zero false) = .ofNat 1) :
    Fallible.Spec
      (fun state : InferenceSession model × SampledLocals => Sampling driver c state)
      (drawToken (f64Weights exp display))
      (fun token state => token = (deviceTarget model.pipeline).choose c ∧
        token.toNat < model.config.vocabSize ∧ Sampling driver c state)
      fun _ _ => ¬ driver.Accepts := by
  rintro ⟨s, locals⟩ h
  have hheld : Holds driver c s := h.toHolds
  have hlogits : locals.logits = c.output := h.logits_eq
  have htopK : locals.sampler.config.topK = some 1 := h.topK
  have hvocab : locals.sampler.vocabSize = model.config.vocabSize := h.vocabSize
  have hlength : locals.logits.length = locals.sampler.vocabSize := by
    rw [hlogits, hvocab]
    exact hhead
  have hfinite : ∀ x ∈ locals.logits, x.isFinite = true := hlogits ▸ hfin
  have hpos : 0 < locals.logits.length := hlength ▸ locals.sampler.valid.vocabSize_pos
  have hsmall : locals.logits.length < UInt32.size := hlength ▸ locals.sampler.vocabSize_lt
  obtain ⟨order, horder⟩ := HostLogitSampler.exists_ranking locals.logits
  have hexists : ∃ token rng, (HostLogitSampler.sample (f64Weights exp display)
      locals.logits).run locals.sampler = (.ok token, { locals.sampler with rng := rng }) := by
    obtain ⟨token, hdraw⟩ := HostLogitSampler.exists_sample_of_topK_one hexp htopK hlength hfinite
    exact ⟨token, _, hdraw⟩
  obtain ⟨token, rng, hdraw⟩ := hexists
  obtain ⟨rfl, -, -, -⟩ := HostLogitSampler.sample_eq_of_topK_one horder htopK hdraw
  have hchoice : (deviceTarget model.pipeline).choose c = UInt32.ofNat (order.headD 0) := by
    show model.kernels.topOne c.output = _
    rw [htop, ← hlogits, F32TopK.defaultBlockSize_eq]
    exact F32TopK.topOne_eq_head 8 horder hpos hsmall.le hfinite
  have hhead' : order.headD 0 < locals.logits.length := by
    cases order with
    | nil => exact hpos
    | cons first rest => exact List.mem_range.1 (horder.perm.mem_iff.1 List.mem_cons_self)
  have htoken : (UInt32.ofNat (order.headD 0)).toNat < model.config.vocabSize := by
    rw [UInt32.toNat_ofNat_of_lt' (hhead'.trans hsmall)]
    rwa [hlength, hvocab] at hhead'
  have hrun : (drawToken (f64Weights exp display)).run (s, locals) =
      (.ok (UInt32.ofNat (order.headD 0)), (s, { locals with
        sampler := { locals.sampler with rng := rng } })) := by
    rw [run_drawToken, hdraw]
  rw [hrun]
  refine And.intro hchoice.symm (And.intro htoken ⟨hheld, hlogits, ?_, ?_⟩)
  · exact htopK
  · exact hvocab

/-- One round picks and feeds the token that greedy generation would. -/
theorem sampledRound_holds (hc : Headed model.pipeline c) (hfin : FiniteOutput c)
    (htop : model.kernels.topOne = F32TopK.topOne F32TopK.defaultBlockSize)
    (hexp : exp (.zero false) = .ofNat 1) (eosTokenId : Option UInt32)
    (haligned : c.Aligned model.config.numHiddenLayers)
    (hposition : c.position < model.config.maxPositionEmbeddings) :
    let token := (deviceTarget model.pipeline).choose c
    Fallible.Spec
      (fun state : InferenceSession model × SampledLocals => Sampling driver c state)
      (sampledRound (f64Weights exp display) eosTokenId)
      (fun r state => r = (token, decide (eosTokenId = some token)) ∧
        Sampling driver (model.pipeline.decoder.step token c) state)
      fun _ _ => ¬ driver.Accepts := by
  intro token
  refine Fallible.Spec.bind (drawToken_holds hc hfin htop hexp) fun drawn =>
    Fallible.Spec.of_forall fun state ⟨hdrawn, hlt, hstate⟩ => ?_
  subst hdrawn
  refine Fallible.Spec.bind ((((decodeOne_holds haligned hlt hposition)).zoom state).conseq
    (fun s hs => ⟨hs, hs ▸ hstate.toHolds⟩) (fun _ _ hs => hs) ?_) fun logits => ?_
  · rintro - s ⟨-, hs, -⟩
    exact hs
  · refine Fallible.Spec.bind (Fallible.Spec.modify _ (Q := fun _ state =>
      Sampling driver (model.pipeline.decoder.step token c) state) ?_) fun _ =>
        Fallible.Spec.pure _ fun _ hs => ⟨rfl, hs⟩
    rintro - ⟨s, ⟨hs, rfl⟩, rfl⟩
    exact ⟨hs, rfl, hstate.topK, hstate.vocabSize⟩

/-- The rounds return the greedy tokens up to the end of the sequence. -/
theorem sampledRounds_holds (htop : model.kernels.topOne = F32TopK.topOne F32TopK.defaultBlockSize)
    (hexp : exp (.zero false) = .ofNat 1) (generation : GenerationConfig) (rounds : ℕ)
    (hc : Headed model.pipeline c)
    (hfin : ∀ c' ∈ (deviceTarget model.pipeline).picks generation.stops rounds c, FiniteOutput c')
    (haligned : c.Aligned model.config.numHiddenLayers)
    (hposition : c.position + rounds ≤ model.config.maxPositionEmbeddings) :
    Fallible.Spec
      (fun state : InferenceSession model × SampledLocals => Sampling driver c state)
      (Fallible.collect (sampledRound (f64Weights exp display) generation.eosTokenId) rounds)
      (fun tokens state =>
        tokens = (deviceTarget model.pipeline).greedyUntil generation.stops rounds c ∧
          Sampling driver ((deviceTarget model.pipeline).advance tokens c) state)
      fun _ _ => ¬ driver.Accepts := by
  induction rounds generalizing c with
  | zero => exact Fallible.Spec.pure _ fun _ hs => ⟨rfl, hs⟩
  | succ rounds ih =>
    refine Fallible.Spec.bind (sampledRound_holds hc (hfin c (Target.mem_picks_succ _ _ _ _)) htop
      hexp generation.eosTokenId haligned (by omega)) fun r =>
        Fallible.Spec.of_forall fun state ⟨hr, hstate⟩ => ?_
    subst hr
    have hstep : Decoder.State.Aligned model.config.numHiddenLayers
        (model.pipeline.decoder.step ((deviceTarget model.pipeline).choose c) c) :=
      @aligned_advance _ model.pipeline _ haligned [(deviceTarget model.pipeline).choose c]
    generalize hlast : decide (generation.eosTokenId =
      some ((deviceTarget model.pipeline).choose c)) = last
    have hstops : generation.stops ((deviceTarget model.pipeline).choose c) = last := hlast
    rw [Target.greedyUntil, hstops]
    cases last with
    | true => exact Fallible.Spec.pure _ fun s hs => ⟨rfl, hs ▸ hstate⟩
    | false =>
      rw [Target.picks_succ _ _ _ hstops, List.forall_mem_cons] at hfin
      refine Fallible.Spec.bind
        ((ih (headed_step _ _) hfin.2 hstep ?_).conseq (fun s hs => hs ▸ hstate)
        (fun _ _ hs => hs) fun _ _ hs => hs) fun rest => Fallible.Spec.pure _ fun s hs => ⟨?_, ?_⟩
      · show c.position + 1 + rounds ≤ _
        omega
      · exact congrArg _ hs.1
      · exact hs.2

/-- The policy is accepted for the vocabulary. -/
def Drawable (model : Model) (sampling : SamplingConfig) : Prop :=
  sampling.Valid model.config.vocabSize ∧ model.config.vocabSize < UInt32.size

/-- A generation that starts holds the logits after its prompt. -/
theorem startSampling_spec (inputIds : List UInt32) (generation : GenerationConfig)
    {sampling : SamplingConfig} (htopK : sampling.topK = some 1) :
    Fallible.Spec (Holds driver c)
      (startSampling (f64Weights exp display) inputIds generation sampling :
        Fallible (InferenceSession model) NnisError SampledLocals)
      (fun locals s => (validatePrompt model.pipeline inputIds 0 = .ok ⟨⟩ ∧
        generation.validate model.config.vocabSize = .ok ⟨⟩ ∧ Drawable model sampling) ∧
          Sampling driver (prompted model.pipeline inputIds) (s, locals))
      fun _ _ => ¬ (driver.Accepts ∧ validatePrompt model.pipeline inputIds 0 = .ok ⟨⟩ ∧
        generation.validate model.config.vocabSize = .ok ⟨⟩ ∧ Drawable model sampling) := by
  refine Fallible.Spec.bind ((prefill_spec inputIds).conseq (fun _ hs => hs) (fun _ _ hs => hs)
    fun _ _ hs ha => hs ⟨ha.1, ha.2.1⟩) fun logits => Fallible.Spec.of_forall
      fun s ⟨hprompt, hs, hlogits⟩ => ?_
  have hlength : logits.length = model.config.vocabSize := by
    rw [hlogits]
    exact headed_prompted (validatePrompt_eq_ok_iff.1 hprompt).1
  rw [hlength]
  refine Fallible.Spec.bind (R := fun _ s' => s' = s ∧
    generation.validate model.config.vocabSize = .ok ⟨⟩) (Fallible.Spec.ofExcept
      (fun _ hok _ hs' => ⟨hs', hok⟩) fun e he _ _ ha => ?_) fun _ =>
        Fallible.Spec.bind (R := fun sampler s' => s' = s ∧
          generation.validate model.config.vocabSize = .ok ⟨⟩ ∧
            HostLogitSampler.new (f64Weights exp display) sampling model.config.vocabSize =
              .ok sampler) (Fallible.Spec.ofExcept (fun _ hok _ hs' => ⟨hs'.1, hs'.2, hok⟩)
                fun e he _ _ ha => ?_) fun sampler => Fallible.Spec.pure _ ?_
  · exact absurd (he.symm.trans ha.2.2.1) nofun
  · obtain ⟨sampler, hnew⟩ := HostLogitSampler.exists_new (f64Weights exp display) ha.2.2.2.1
      ha.2.2.2.2
    exact absurd (he.symm.trans hnew) nofun
  · rintro s' ⟨rfl, hvalidate, hnew⟩
    obtain ⟨hconfig, hvocab⟩ := HostLogitSampler.new_ok _ hnew
    exact ⟨⟨hprompt, hvalidate, hconfig ▸ hvocab ▸ sampler.valid, hvocab ▸ sampler.vocabSize_lt⟩,
      hs, hlogits, hconfig ▸ htopK, hvocab⟩

/-- A sampled generation with one candidate returns the greedy tokens after its prompt, up to the
end of the sequence, and has fed all of them. -/
theorem generateSampled_spec
    (htop : model.kernels.topOne = F32TopK.topOne F32TopK.defaultBlockSize)
    (hexp : exp (.zero false) = .ofNat 1) (inputIds : List UInt32) (generation : GenerationConfig)
    (hfin : FinitePicks model.pipeline inputIds generation) {sampling : SamplingConfig}
    (htopK : sampling.topK = some 1) :
    Fallible.Spec (Holds driver c)
      (generateSampled (f64Weights exp display) inputIds generation sampling :
        Fallible (InferenceSession model) NnisError (List UInt32 × HostLogitSampler))
      (fun r s => Admitted model.pipeline inputIds generation ∧ Drawable model sampling ∧
        r.1 = continuation model.pipeline inputIds generation ∧
          Holds driver (generated model.pipeline inputIds generation) s)
      fun _ _ => ¬ (driver.Accepts ∧ Admitted model.pipeline inputIds generation ∧
        Drawable model sampling) := by
  refine Fallible.Spec.of_forall fun s hs => Fallible.Spec.get_bind ?_
  by_cases hroom : inputIds.length + generation.maxNewTokens ≤ s.capacity
  · rw [requirePositions_eq_ok hroom, Fallible.ofExcept_ok_bind]
    refine Fallible.Spec.bind ((startSampling_spec inputIds generation htopK).conseq
      (fun s' hs' => hs' ▸ hs) (fun _ _ hs => hs) fun _ _ hs ha => hs ⟨ha.1, ?_, ?_, ha.2.2⟩)
        fun locals => Fallible.Spec.of_forall fun s₁ ⟨⟨hprompt, hvalidate, hdrawable⟩, hs₁⟩ => ?_
    · exact validatePrompt_mono (Nat.zero_le _) ha.2.1.prompt_ok
    · exact ha.2.1.generation_ok
    obtain ⟨hempty, htokens, -⟩ := validatePrompt_eq_ok_iff.1 hprompt
    have hadmitted : Admitted model.pipeline inputIds generation :=
      ⟨hvalidate, validatePrompt_eq_ok_iff.2 ⟨hempty, htokens, hroom⟩⟩
    refine Fallible.Spec.bind (((sampledRounds_holds htop hexp generation generation.maxNewTokens
      (headed_prompted hempty) hfin (@aligned_prompted _ model.pipeline inputIds) ?_).withLocals
        locals).conseq (fun s' hs' => hs' ▸ hs₁) (fun _ _ hs => hs) ?_)
          fun r => Fallible.Spec.pure _ ?_
    · rw [position_prompted]
      exact hroom
    · rintro - - ⟨-, hs⟩ ha
      exact hs ha.1
    · rintro s' ⟨htokens, hs'⟩
      refine ⟨hadmitted, hdrawable, htokens, ?_⟩
      rw [generated, continuation, ← htokens]
      exact hs'.toHolds
  · obtain ⟨e, he⟩ := requirePositions_eq_error hroom "prompt + sampled generation"
    rw [he]
    refine Fallible.Spec.fail _ fun _ _ ha => hroom ?_
    exact (validatePrompt_eq_ok_iff.1 ha.2.1.prompt_ok).2.2

end InferenceSession

namespace F16ReferenceSession

open Session

variable {model : F16ReferenceModel} {events : EventDriver} {driver : Driver}
  {c : Decoder.State (KvRow UInt16) (List F32)}

/-! ### Profiled generation -/

/-- A call on an event, accepted or not. -/
private theorem event_holds {P : F16ReferenceSession model → Prop} {r : Except NnisError PUnit}
    {accepted : Prop} (h : accepted → r = .ok ⟨⟩) :
    Fallible.Spec P (Fallible.ofExcept r) (fun _ => P)
      fun _ _ => ¬ (driver.Accepts ∧ accepted) :=
  Fallible.Spec.ofExcept (fun _ _ _ hs => hs) fun _ he _ _ ha =>
    absurd (he.symm.trans (h ha.2)) nofun

private theorem weaken {α : Type} {P : F16ReferenceSession model → Prop}
    {m : Fallible (F16ReferenceSession model) NnisError α}
    {Q : α → F16ReferenceSession model → Prop} {accepted : Prop}
    (h : Fallible.Spec P m Q fun _ _ => ¬ driver.Accepts) :
    Fallible.Spec P m Q fun _ _ => ¬ (driver.Accepts ∧ accepted) :=
  h.conseq (fun _ hs => hs) (fun _ _ hs => hs) fun _ _ hs ha => hs ha.1

/-- A profile between forwards: all picked tokens but the last have been fed. -/
structure Profiled (driver : Driver) (c : Decoder.State (KvRow UInt16) (List F32)) (forwards : ℕ)
    (tokens : List UInt32) (s : F16ReferenceSession model) : Prop extends
    HoldsToken driver
      ((deviceTarget model.pipeline).advance ((deviceTarget model.pipeline).greedy forwards c) c)
      ((deviceTarget model.pipeline).choose ((deviceTarget model.pipeline).advance
        ((deviceTarget model.pipeline).greedy forwards c) c)) s where
  tokens_eq : tokens = (deviceTarget model.pipeline).greedy (forwards + 1) c

theorem Profiled.called {kind : CallRecord → Prop} {forwards : ℕ} {tokens : List UInt32}
    {s s' : F16ReferenceSession model} (h : Profiled driver c forwards tokens s)
    (hs : Called kind s s') : Profiled driver c forwards tokens s' :=
  ⟨h.toHoldsToken.called hs, h.tokens_eq⟩

theorem profileForward_holds (hc : c.Aligned model.config.numHiddenLayers) {forwards : ℕ}
    (hposition : c.position + forwards < model.config.maxPositionEmbeddings)
    (tokens : List UInt32) :
    Fallible.Spec (fun s : F16ReferenceSession model => Profiled driver c forwards tokens s)
      (profileForward events (forwards + 1) tokens) (Profiled driver c (forwards + 1))
      fun _ _ => ¬ (driver.Accepts ∧ events.Accepting) := by
  refine Fallible.Spec.bind (event_holds fun h => h.create _) fun _ => Fallible.Spec.bind
    (event_holds fun h => h.create _) fun _ => Fallible.Spec.bind (event_holds fun h => h.record _)
      fun _ => Fallible.Spec.of_forall fun s₁ hs₁ => ?_
  have hfed := @aligned_advance _ model.pipeline _ hc
    ((deviceTarget model.pipeline).greedy forwards c)
  refine Fallible.Spec.bind (weaken ((enqueueCurrentToken_holds hfed ?_).conseq
    (fun s hs => hs ▸ hs₁.toHoldsToken) (fun _ _ hs => hs) fun _ _ hs => hs)) fun _ =>
      Fallible.Spec.bind (event_holds fun h => h.record _) fun _ => Fallible.Spec.bind
        (weaken enqueueTopOne_holds) fun _ => Fallible.Spec.bind
          (weaken (call_holdsToken _)) fun _ => Fallible.Spec.of_forall fun s₂ hs₂ =>
            Fallible.Spec.get_bind (Fallible.Spec.pure _ ?_)
  · rw [@position_advance _ model.pipeline, Target.length_greedy]
    exact hposition
  · rintro s rfl
    have hadvance : (deviceTarget model.pipeline).advance
        ((deviceTarget model.pipeline).greedy (forwards + 1) c) c =
          model.pipeline.decoder.step ((deviceTarget model.pipeline).choose
            ((deviceTarget model.pipeline).advance
              ((deviceTarget model.pipeline).greedy forwards c) c))
            ((deviceTarget model.pipeline).advance
              ((deviceTarget model.pipeline).greedy forwards c) c) := by
      rw [greedy_succ, Target.advance_concat]
      rfl
    refine ⟨hadvance ▸ hs₂, ?_⟩
    rw [greedy_succ, hadvance, hs₁.tokens_eq, hs₂.currentToken_eq]

theorem profileWork_holds {inputIds : List UInt32} {forwards : ℕ}
    (h : validatePrompt model.pipeline inputIds forwards = .ok ⟨⟩) (logits : List F32) :
    Fallible.Spec (fun s : F16ReferenceSession model => Holds driver (start logits) s)
      (profileWork events inputIds (forwards + 1))
      (Profiled driver (prompted model.pipeline inputIds) forwards)
      fun _ _ => ¬ (driver.Accepts ∧ events.Accepting) := by
  obtain ⟨-, -, hfit⟩ := validatePrompt_eq_ok_iff.1 h
  refine Fallible.Spec.bind (event_holds fun h => h.record _) fun _ => Fallible.Spec.bind
    (weaken (enqueuePrompt_holds h logits)) fun _ => Fallible.Spec.bind
      (event_holds fun h => h.record _) fun _ => Fallible.Spec.bind
        (weaken enqueueTopOne_holds) fun _ => Fallible.Spec.bind
          (weaken (call_holdsToken _)) fun _ => Fallible.Spec.of_forall fun s₁ hs₁ =>
            Fallible.Spec.get_bind ?_
  refine (Fallible.Spec.foldRange (fun step tokens => Profiled driver
    (prompted model.pipeline inputIds) step tokens) forwards [s₁.currentToken]
      fun step hstep tokens => profileForward_holds (@aligned_prompted _ model.pipeline inputIds)
        ?_ tokens).conseq (fun s hs => ⟨hs ▸ hs₁, ?_⟩) (fun _ _ hs => hs) fun _ _ hs => hs
  · rw [position_prompted]
    exact (Nat.add_lt_add_left hstep _).trans_le hfit
  · rw [hs₁.currentToken_eq]
    rfl

/-- A request for a profile passes the checks made before any work. -/
structure Profilable (model : F16ReferenceModel) (inputIds : List UInt32) (maxNewTokens : ℕ) :
    Prop where
  two_le : 2 ≤ maxNewTokens
  prompt_ok : validatePrompt model.pipeline inputIds (maxNewTokens - 1) = .ok ⟨⟩

/-- The environment accepts every call on an event, and the forwards take some time. -/
structure Measures (events : EventDriver) (forwards : ℕ) : Prop extends events.Accepting where
  measured : ∀ forwardMs, events.forwardMs forwards = .ok forwardMs →
    EventDriver.Measured (EventDriver.totalMs forwardMs)

private theorem elapsedMs_eq_ok (h : events.Accepting) (start finish : ProfileEvent) :
    ∃ ms, events.elapsedMs start finish = .ok ms := by
  obtain ⟨ms, hms⟩ := h.elapsed start finish
  rw [EventDriver.elapsedMs, h.synchronize, hms]
  exact ⟨_, rfl⟩

private theorem forwardMs_eq_ok (h : events.Accepting) (forwards : ℕ) :
    ∃ forwardMs, events.forwardMs forwards = .ok forwardMs := by
  rw [EventDriver.forwardMs]
  generalize List.range forwards = steps
  induction steps with
  | nil => exact ⟨[], rfl⟩
  | cons step steps ih =>
    obtain ⟨rest, hrest⟩ := ih
    obtain ⟨ms, hms⟩ := elapsedMs_eq_ok h (.forwardStart (step + 1)) (.forwardEnd (step + 1))
    rw [List.mapM_cons, hms, hrest]
    exact ⟨_, rfl⟩

/-- The work of a profile after the wait for it. -/
private theorem profileFinish_holds {inputIds : List UInt32} {forwards : ℕ}
    (h : validatePrompt model.pipeline inputIds forwards = .ok ⟨⟩) (logits : List F32) :
    Fallible.Spec (fun s : F16ReferenceSession model => Holds driver (start logits) s)
      ((profileWork events inputIds (forwards + 1)).attempt >>= finish)
      (Profiled driver (prompted model.pipeline inputIds) forwards)
      fun _ _ => ¬ (driver.Accepts ∧ Measures events forwards) := by
  refine (attempt_finish_spec (profileWork_holds h logits)).conseq (fun _ hs => hs) ?_ ?_
  · rintro tokens s' ⟨s₁, hs₁, hs'⟩
    exact hs₁.called hs'
  · rintro e s' (⟨-, hr, -⟩ | ⟨tokens, s₁, hs₁, hs', hr⟩) ha
    · exact hr ⟨ha.1, ha.2.toAccepting⟩
    · exact not_accepts (hs'.since.driver_eq.trans hs₁.driver_eq) hr ha.1

/-- The report of a profile whose work has been waited for. -/
private theorem readProfile_holds {inputIds : List UInt32} {forwards : ℕ}
    {tokens : List UInt32} {s₁ : F16ReferenceSession model}
    (hs₁ : Profiled driver (prompted model.pipeline inputIds) forwards tokens s₁) :
    Fallible.Spec (fun s => s = s₁)
      (readProfile events (forwards + 1) tokens)
      (fun profile s => profile.generatedIds = (deviceTarget model.pipeline).greedy (forwards + 1)
        (prompted model.pipeline inputIds) ∧ profile.sessionPositionAfterProfile = s.position ∧
          s.position = inputIds.length + forwards)
      fun _ _ => ¬ (driver.Accepts ∧ Measures events forwards) := by
  refine Fallible.Spec.bind (R := fun _ s => s = s₁) (Fallible.Spec.ofExcept
    (fun _ _ _ hs => hs) fun e he _ _ ha => ?_) fun prefillGpuMs => Fallible.Spec.bind
      (R := fun forwardMs s => s = s₁ ∧ events.forwardMs forwards = .ok forwardMs)
      (Fallible.Spec.ofExcept (fun _ hok _ hs => ⟨hs, hok⟩) fun e he _ _ ha => ?_)
        fun forwardMs => ?_
  · obtain ⟨ms, hms⟩ := elapsedMs_eq_ok ha.2.toAccepting .prefillStart .prefillEnd
    exact absurd (he.symm.trans hms) nofun
  · obtain ⟨forwardMs, hforward⟩ := forwardMs_eq_ok ha.2.toAccepting forwards
    exact absurd (he.symm.trans hforward) nofun
  dsimp only
  split_ifs with htotal
  · refine Fallible.Spec.fail _ fun s hs ha => ?_
    obtain ⟨hfinite, hpos⟩ := ha.2.measured forwardMs hs.2
    rw [hfinite, hpos] at htotal
    exact Bool.false_ne_true htotal
  · refine Fallible.Spec.bind ((weaken (call_holdsToken _)).conseq
      (fun s hs => hs.1.symm ▸ hs₁.toHoldsToken) (fun _ _ hs => hs) fun _ _ hs => hs) fun _ =>
        Fallible.Spec.of_forall fun s₂ hs₂ => Fallible.Spec.get_bind (Fallible.Spec.pure _ ?_)
    rintro s rfl
    refine ⟨hs₁.tokens_eq, rfl, ?_⟩
    rw [hs₂.position_eq, @position_advance _ model.pipeline, Target.length_greedy,
      position_prompted]

/-- A profile reports the greedy tokens after its prompt, of which all but the last have been
fed. -/
theorem profile_spec (inputIds : List UInt32) (maxNewTokens : ℕ) :
    Fallible.Spec (fun s : F16ReferenceSession model => Holds driver c s)
      (profileGreedyEdgeGenerationSemantics events inputIds maxNewTokens)
      (fun profile s => Profilable model inputIds maxNewTokens ∧
        profile.generatedIds = (deviceTarget model.pipeline).greedy maxNewTokens
          (prompted model.pipeline inputIds) ∧
        profile.sessionPositionAfterProfile = s.position ∧
          s.position + 1 = inputIds.length + maxNewTokens)
      fun _ _ => ¬ (driver.Accepts ∧ Measures events (maxNewTokens - 1) ∧
        Profilable model inputIds maxNewTokens) := by
  unfold profileGreedyEdgeGenerationSemantics
  split_ifs with htwo
  · exact Fallible.Spec.fail _ fun _ _ ha => Nat.not_lt.2 ha.2.2.two_le htwo
  obtain ⟨forwards, rfl⟩ : ∃ forwards, maxNewTokens = forwards + 1 :=
    ⟨maxNewTokens - 1, by omega⟩
  refine Fallible.Spec.bind (R := fun _ s => Holds driver c s ∧
    Profilable model inputIds (forwards + 1)) (Fallible.Spec.ofExcept
      (fun _ hok _ hs => ⟨hs, Nat.not_lt.1 htwo, hok⟩) fun _ he _ _ ha =>
        absurd (he.symm.trans ha.2.2.prompt_ok) nofun) fun _ =>
          Fallible.Spec.of_forall fun s ⟨hs, hprofilable⟩ => ?_
  have hprompt : validatePrompt model.pipeline inputIds forwards = .ok ⟨⟩ := hprofilable.prompt_ok
  refine Fallible.Spec.conseq (Q := fun profile s =>
    profile.generatedIds = (deviceTarget model.pipeline).greedy (forwards + 1)
      (prompted model.pipeline inputIds) ∧ profile.sessionPositionAfterProfile = s.position ∧
        s.position = inputIds.length + forwards)
    (E := fun _ _ => ¬ (driver.Accepts ∧ Measures events forwards))
    (Fallible.Spec.bind (weaken reset_holds) fun _ => Fallible.Spec.bind (weaken (call_holds _))
      fun _ => Fallible.Spec.bind (weaken (call_holds _)) fun _ => Fallible.Spec.bind
        (event_holds fun h => h.create _) fun _ => Fallible.Spec.bind
          (event_holds fun h => h.create _) fun _ => ?_)
    (fun s' hs' => hs' ▸ hs) (fun profile s hs => ⟨hprofilable, hs.1, hs.2.1, ?_⟩)
    fun _ _ hs ha => hs ⟨ha.1, ha.2.1⟩
  · rw [← bind_assoc]
    exact Fallible.Spec.bind (profileFinish_holds hprompt _) fun tokens =>
      Fallible.Spec.of_forall fun s₁ hs₁ => readProfile_holds hs₁
  · rw [hs.2.2, Nat.add_assoc]

/-- What a profile reports, from any session and on any driver. -/
structure ProfileAgreement (model : F16ReferenceModel) (events : EventDriver)
    (inputIds : List UInt32) (maxNewTokens : ℕ) : Prop where
  /-- It returns only when its request is accepted, and then whenever every call is accepted and the
  forwards take some time. -/
  profilable : ∀ (s s₁ : F16ReferenceSession model) (profile : F16ReferenceGenerationProfile),
    (profileGreedyEdgeGenerationSemantics events inputIds maxNewTokens).run s =
      (.ok profile, s₁) → Profilable model inputIds maxNewTokens
  returns : ∀ s : F16ReferenceSession model, s.stream.Accepting →
    Measures events (maxNewTokens - 1) → Profilable model inputIds maxNewTokens →
      ∃ profile s₁, (profileGreedyEdgeGenerationSemantics events inputIds maxNewTokens).run s =
        (.ok profile, s₁)
  /-- It reports the tokens of a generation without an end-of-sequence token, and ends one position
  earlier. -/
  same : ∀ (s s' s₁ s₂ : F16ReferenceSession model) (profile : F16ReferenceGenerationProfile)
    (whole : List UInt32),
    (profileGreedyEdgeGenerationSemantics events inputIds maxNewTokens).run s =
      (.ok profile, s₁) → (generate inputIds ⟨maxNewTokens, none⟩).run s' = (.ok whole, s₂) →
        profile.generatedIds = whole ∧ s₁.position + 1 = s₂.position ∧
          profile.sessionPositionAfterProfile = s₁.position

theorem profileAgreement (model : F16ReferenceModel) (events : EventDriver)
    (inputIds : List UInt32) (maxNewTokens : ℕ) :
    ProfileAgreement model events inputIds maxNewTokens where
  profilable s s₁ profile h := ((profile_spec inputIds maxNewTokens).ok (Holds.refl s) h).1
  returns s hs hmeasures hprofilable := by
    rcases hrun : (profileGreedyEdgeGenerationSemantics events inputIds maxNewTokens).run s with
      ⟨e | profile, s₁⟩
    · exact absurd ⟨hs, hmeasures, hprofilable⟩
        ((profile_spec inputIds maxNewTokens).error (Holds.refl s) hrun)
    · exact ⟨profile, s₁, rfl⟩
  same s s' s₁ s₂ profile whole h h' := by
    obtain ⟨-, hids, hreported, hposition⟩ :=
      (profile_spec inputIds maxNewTokens).ok (Holds.refl s) h
    have hgreedy := greedyAgreement model.pipeline inputIds ⟨maxNewTokens, none⟩
    obtain ⟨-, hwhole⟩ := hgreedy.shortest s' s' s₂ s₂ whole whole h' h'
    refine ⟨hids.trans hwhole.symm, ?_, hreported⟩
    rw [hposition, hgreedy.position s' s₂ whole h', hwhole, Target.length_greedy]

end F16ReferenceSession

namespace InferenceSession

open Session

/-- What sampled generation with one candidate returns, from any session and on any driver. -/
structure SampledAgreement (model : Model) (exp : F64 → F64) (display : F32 → String)
    (inputIds : List UInt32) (generation : GenerationConfig) (sampling : SamplingConfig) :
    Prop where
  /-- It returns only when it is admitted, and then whenever every call is accepted. -/
  admitted : ∀ (s s₁ : InferenceSession model) (tokens : List UInt32)
    (sampler : HostLogitSampler),
    (generateSampled (f64Weights exp display) inputIds generation sampling).run s =
      (.ok (tokens, sampler), s₁) →
        Admitted model.pipeline inputIds generation ∧ Drawable model sampling
  returns : ∀ s : InferenceSession model, s.stream.Accepting →
    Admitted model.pipeline inputIds generation → Drawable model sampling →
      ∃ tokens sampler s₁, (generateSampled (f64Weights exp display) inputIds generation
        sampling).run s = (.ok (tokens, sampler), s₁)
  /-- It returns the tokens of greedy generation and ends at the same position. -/
  same : ∀ (s s' s₁ s₂ : InferenceSession model) (tokens greedy : List UInt32)
    (sampler : HostLogitSampler),
    (generateSampled (f64Weights exp display) inputIds generation sampling).run s =
      (.ok (tokens, sampler), s₁) → (generate inputIds generation).run s' = (.ok greedy, s₂) →
        tokens = greedy ∧ s₁.position = s₂.position

/-- Greedy generation with an end-of-sequence token returns the shortest beginning of the greedy
continuation that ends in it, sampled generation with one candidate returns the same if the logits
it picks its tokens from are finite, and a profile returns the whole continuation without feeding
its last token. -/
theorem generations_agree (model : Model) (exp : F64 → F64) (display : F32 → String)
    (htop : model.kernels.topOne = F32TopK.topOne F32TopK.defaultBlockSize)
    (hexp : exp (.zero false) = .ofNat 1) (inputIds : List UInt32)
    (generation : GenerationConfig) :
    GreedyAgreement model.pipeline inputIds generation ∧
    (∀ sampling : SamplingConfig, sampling.topK = some 1 →
      FinitePicks model.pipeline inputIds generation →
        SampledAgreement model exp display inputIds generation sampling) ∧
    ∀ f16 : F16ReferenceModel, GreedyAgreement f16.pipeline inputIds generation ∧
      ∀ events : EventDriver, F16ReferenceSession.ProfileAgreement f16 events inputIds
        generation.maxNewTokens := by
  refine ⟨greedyAgreement _ _ _, fun sampling htopK hfin => ⟨fun s s₁ tokens sampler h => ?_,
    fun s hs hadmitted hdrawable => ?_, fun s s' s₁ s₂ tokens greedy sampler h h' => ?_⟩,
      fun f16 => ⟨greedyAgreement _ _ _, fun events =>
        F16ReferenceSession.profileAgreement f16 events inputIds _⟩⟩
  · have hspec := (generateSampled_spec htop hexp inputIds generation hfin htopK).ok
      (Holds.refl s) h
    exact ⟨hspec.1, hspec.2.1⟩
  · rcases hrun : (generateSampled (f64Weights exp display) inputIds generation sampling).run s with
      ⟨e | ⟨tokens, sampler⟩, s₁⟩
    · exact absurd ⟨hs, hadmitted, hdrawable⟩
        ((generateSampled_spec htop hexp inputIds generation hfin htopK).error
          (Holds.refl s) hrun)
    · exact ⟨tokens, sampler, s₁, rfl⟩
  · obtain ⟨-, -, htokens, hs₁⟩ :=
      (generateSampled_spec htop hexp inputIds generation hfin htopK).ok (Holds.refl s) h
    obtain ⟨-, hgreedy, hs₂⟩ := generate_ok h'
    exact ⟨htokens.trans hgreedy.symm, hs₁.position_eq.trans hs₂.position_eq.symm⟩

/-- The small model whose tokens are picked by the kernels. -/
def alternatingTopK : Model :=
  { alternating with
    kernels := { alternating.kernels with topOne := F32TopK.topOne F32TopK.defaultBlockSize } }

private theorem length_alternatingTopK_cache : (List.replicate 16 (default : F32)).length =
    alternatingTopK.pipeline.config.cache.elementsPerSide :=
  List.length_replicate

private theorem length_alternatingTopK_logits : (List.replicate 2 (default : F32)).length =
    alternatingTopK.pipeline.config.vocabSize :=
  List.length_replicate

/-- A new session of this model. -/
def alternatingTopKSession : InferenceSession alternatingTopK :=
  .new .accepting (List.replicate 16 default) (List.replicate 16 default)
    (List.replicate 2 default) 0 length_alternatingTopK_cache length_alternatingTopK_cache
    length_alternatingTopK_logits

/-- The policy that keeps one candidate. -/
def oneCandidate : SamplingConfig := ⟨one, some 1, none, 0⟩

private theorem finitePicks_alternatingTopK :
    FinitePicks alternatingTopK.pipeline [1] ⟨3, some 0⟩ := by
  unfold FinitePicks FiniteOutput
  decide

/-- The agreement after the prompt `[1]`. -/
theorem generations_agree_alternating :
    ∃ tokens sampler s₁ s₂,
      (generateSampled (f64Weights (fun _ => .ofNat 1) fun _ => "") [1] ⟨3, some 0⟩
        oneCandidate).run alternatingTopKSession = (.ok (tokens, sampler), s₁) ∧
      (generate [1] ⟨3, some 0⟩).run alternatingTopKSession = (.ok tokens, s₂) ∧
        s₁.position = s₂.position := by
  obtain ⟨hgreedy, hsampled, -⟩ := generations_agree alternatingTopK (fun _ => .ofNat 1)
    (fun _ => "") rfl rfl [1] ⟨3, some 0⟩
  have hadmitted : Admitted alternatingTopK.pipeline [1] ⟨3, some 0⟩ :=
    ⟨rfl, validatePrompt_eq_ok_iff.2
      ⟨List.cons_ne_nil _ _, List.forall_mem_singleton.2 (by decide), by decide⟩⟩
  have hdrawable : Drawable alternatingTopK oneCandidate :=
    ⟨⟨by decide, by decide, by decide, by decide, nofun⟩, by decide⟩
  have hsame := hsampled oneCandidate rfl finitePicks_alternatingTopK
  obtain ⟨tokens, s₂, hrun⟩ := hgreedy.returns alternatingTopKSession (fun _ _ => rfl) hadmitted
  obtain ⟨tokens', sampler, s₁, hrun'⟩ := hsame.returns alternatingTopKSession (fun _ _ => rfl)
    hadmitted hdrawable
  obtain ⟨rfl, hposition⟩ := hsame.same _ _ _ _ _ _ _ hrun' hrun
  exact ⟨tokens', sampler, s₁, s₂, hrun', hrun, hposition⟩

end InferenceSession

end NNIS
