import NNIS.Model.SessionVerify
import NNIS.Rt.PlannedCalls

/-!
# The calls of a verification

The calls that decoding a token makes, and from them those of a whole speculative verification, as
plans in terms of the state before. In an aligned session, where every token of the draft fits, a
verification follows its plan, so the number of logits rows that it writes is read off the plan and
the driver.

## Main definitions

* `KvCache.appendCalls`, `Session.tokenCalls`, `Session.decodeCalls`, `Session.draftCalls`.
* `Session.stepCalls`, `Session.verifyCalls`.
* `Session.headsAdmitted` — the launches of the LM head that the driver admits in a verification.

## Main results

* `Session.decodeOne_follows`, `Session.speculativeStep_outcome`.
* `Session.heads_eq_of_failed`.
-/

set_option autoImplicit false

namespace NNIS

/-- The launches of a stage. -/
def stageCalls (stage : Stage) (launches : ℕ) : List CallSite :=
  (List.range launches).map (.launch stage)

/-! ### An append -/

namespace KvCache

variable {config : KvCacheConfig} {V : Type} {kind : CallRecord → Prop}

/-- The calls of an append to a layer: the copies of its heads and its completion event. -/
def appendCalls (config : KvCacheConfig) (layer : ℕ) : List CallSite :=
  (.prepareAppend layer :: (List.range config.heads).flatMap
    fun head => [.appendKey layer head, .appendValue layer head]) ++ [.recordAppend layer]

section Calls

variable (hrefused : ∀ site, kind (site, false)) (c : KvCache config V)
include hrefused

theorem call_follows (site : CallSite) : Stream.Follows kind stream (call site) c [site] :=
  Stream.Follows.zoom (fun s => s) rfl (fun _ => rfl)
  (Stream.call_follows site c.stream (hrefused site))

theorem callOrDrain_follows (hdrain : kind (.synchronize .drain, true)) (site : CallSite) :
    Stream.Follows kind stream (callOrDrain site) c [site] := by
  have hwait (ok : Bool) : kind (.synchronize .drain, ok) := by
    cases ok
    · exact hrefused _
    · exact hdrain
  refine Fallible.Spec.bind (call_follows hrefused c site).attempt fun r => ?_
  cases r with
  | ok _ => exact Fallible.Spec.pure _ fun _ h => h
  | error e =>
    refine Fallible.Spec.bind (R := fun _ y => Stream.CutShort kind [site] c.stream y.stream)
      (Fallible.Spec.attempt (Fallible.Spec.of_forall fun y hy =>
        (y.call_spec (.synchronize .drain) hwait).conseq (fun _ h => h) ?_ ?_)) fun _ =>
          Fallible.Spec.fail _ fun _ h => h
    · rintro - z ⟨s, rfl, hs⟩
      exact Stream.CutShort.trans hy hs
    · rintro - z ⟨s, rfl, hs, -⟩
      exact Stream.CutShort.trans hy hs

/-- An append of one token that fits makes its calls. -/
theorem appendLayerAsync_follows (hdrain : kind (.synchronize .drain, true)) {layer : ℕ}
    {keys values : List V} (hlayer : layer < config.layers)
    (hlast : c.rowCount layer + 1 ≤ config.capacity)
    (hkeys : keys.length = config.heads * 1 * config.headDim)
    (hvalues : values.length = config.heads * 1 * config.headDim) :
    Stream.Follows kind stream (appendLayerAsync layer keys values 1) c
      (appendCalls config layer) := by
  have hcopies : (plannedCopies config layer (c.rowCount layer) 1).flatMap
      (fun copy => [CallSite.appendKey layer copy.head, .appendValue layer copy.head]) =
        (List.range config.heads).flatMap
          fun head => [.appendKey layer head, .appendValue layer head] := by
    rw [plannedCopies, List.flatMap_map]
  have hsubmit : Stream.Follows kind stream (submitCopies layer (1 * config.headDim) keys values
      (plannedCopies config layer (c.rowCount layer) 1)) c
        (.prepareAppend layer :: (List.range config.heads).flatMap
          fun head => [.appendKey layer head, .appendValue layer head]) := by
    rw [submitCopies, if_neg (Nat.mul_ne_zero one_ne_zero config.headDim_pos.ne'), ← hcopies]
    refine (call_follows hrefused c _).bind fun _ y _ => Stream.Follows.forEach
      (fun copy : KvHeadCopy => [.appendKey layer copy.head, .appendValue layer copy.head]) _
        (fun copy _ y => ?_) y
    exact (callOrDrain_follows hrefused y hdrain _).bind fun _ y _ =>
      (Stream.Follows.modify _ y rfl).bind_nil fun _ y _ =>
        (callOrDrain_follows hrefused y hdrain _).bind fun _ y _ => Stream.Follows.modify _ y rfl
  have hall := hsubmit.bind fun _ y _ => (callOrDrain_follows hrefused y hdrain
    (.recordAppend layer)).bind (f := fun _ => Fallible.modify
      (setLength layer (c.rowCount layer + 1) hlast)) fun _ y _ => Stream.Follows.modify _ y rfl
  intro y hy
  subst hy
  rw [y.run_appendLayerAsync hlayer hlast hkeys hvalues]
  exact hall y rfl

end Calls

end KvCache

namespace Session

variable {V : Type} {rt : Pipeline V}

/-- A computation of a session makes the calls of a plan. After a refused one it launches no LM
head. -/
abbrev Follows {α : Type} (m : Fallible (Session rt) NnisError α) (s : Session rt)
    (plan : List CallSite) : Prop :=
  Stream.Follows noHead stream m s plan

theorem noHead_refused (site : CallSite) : noHead (site, false) := by
  intro he
  cases he

theorem call_follows (s : Session rt) (site : CallSite) : Follows (call site) s [site] :=
  Stream.Follows.zoom KvCache.stream rfl (fun _ => rfl)
    (KvCache.call_follows noHead_refused s.cache site)

theorem submit_follows {α : Type} (s : Session rt) (stage : Stage) (batch : Batch α) :
    Follows (submit stage batch) s (stageCalls stage batch.launches) := by
  have hplan : stageCalls stage batch.launches =
      (List.range batch.launches).flatMap (fun index => [CallSite.launch stage index]) :=
    (List.flatMap_pure_eq_map _ _).symm
  rw [hplan]
  exact (Stream.Follows.foldRange (fun _ _ _ => True) (fun index => [.launch stage index])
    batch.launches ⟨⟩ trivial fun index _ _ y _ =>
      ⟨call_follows y _, fun _ _ _ => trivial⟩).1.bind_end fun _ y _ =>
        Stream.Follows.pure batch.value y

/-! ### One token -/

section Token

variable (rt) (token : UInt32) (c : Decoder.State (KvRow V) (List F32))

/-- The hidden value of a token before a layer. -/
def hiddenBefore (layer : ℕ) : List V :=
  (rt.decoder.through c.position (rt.decoder.embed token) c.rows layer).1

/-- The rows of a layer with that of a token. -/
def rowsWith (layer : ℕ) : List (KvRow V) :=
  (rt.decoder.through c.position (rt.decoder.embed token) c.rows (layer + 1)).2 layer

/-- The calls of a token in one layer. -/
def layerCalls (layer : ℕ) : List CallSite :=
  let hidden := hiddenBefore rt token c layer
  let input := rt.input layer c.position hidden
  stageCalls (.input layer) input.launches ++ (KvCache.appendCalls rt.config.cache layer ++
    stageCalls (.output layer)
      (rt.output layer hidden input.value.1 (rowsWith rt token c layer)).launches)

/-- The calls that encode a token. -/
def tokenCalls : List CallSite :=
  stageCalls .gather (rt.gather token).launches ++
    ((List.range rt.config.numHiddenLayers).flatMap (layerCalls rt token c) ++
      (stageCalls .finalNorm
        (rt.finalNorm (hiddenBefore rt token c rt.config.numHiddenLayers)).launches ++
          [.launch .lmHead 0]))

/-- The calls that decode a token. -/
def decodeCalls : List CallSite :=
  ([.uploadToken] ++ tokenCalls rt token c) ++ ([.synchronize .finish] ++ [.downloadLogits])

end Token

/-- A token makes its calls in a layer that has room. -/
theorem enqueueLayer_follows {s₀ s₁ : Session rt} {n : ℕ} {hidden : List V}
    (h : Through s₀ n hidden s₁) (hn : n < rt.config.numHiddenLayers) (hroom : s₀.Room) :
    Follows (enqueueLayer s₀.position n hidden) s₁ (layerCalls rt s₀.currentToken s₀.core n) := by
  have hhidden : hiddenBefore rt s₀.currentToken s₀.core n = hidden :=
    congrArg Prod.fst h.through_eq
  have hrows : rowsWith rt s₀.currentToken s₀.core n =
      s₁.cache.rows n ++ [(rt.input n s₀.position hidden).value.2] := by
    show (rt.decoder.through s₀.position (rt.decoder.embed s₀.currentToken) s₀.cache.rows
      (n + 1)).2 n = _
    rw [Decoder.through, h.through_eq]
    exact Function.update_self ..
  rw [layerCalls, hhidden, hrows]
  refine (s₁.submit_follows (.input n) (rt.input n s₀.position hidden)).bind
    fun input s₂ hinput => ?_
  have hstage : ∀ index ok, anyCall (.launch (.input n) index, ok) := fun _ _ => trivial
  obtain ⟨rfl, hs₂⟩ := (s₁.submit_spec (.input n) (rt.input n s₀.position hidden) (fun _ => true)
    hstage fun _ => rfl).ok rfl hinput
  have hlast : s₂.cache.rowCount n + 1 ≤ rt.config.cache.capacity := by
    rw [← KvCache.length_rows, hs₂.rows_eq, h.rows_eq le_rfl, KvCache.length_rows]
    exact hroom.2 n hn
  have hkey := rt.length_key n s₀.position hidden
  have hvalue := rt.length_value n s₀.position hidden
  have hdrain : noHead (.synchronize .drain, true) := by
    rw [noHead]
    decide
  refine (Stream.Follows.zoom KvCache.stream rfl (fun _ => rfl)
    (KvCache.appendLayerAsync_follows noHead_refused s₂.cache hdrain hn hlast
      (hkey.trans (keyValueWidth_eq _)) (hvalue.trans (keyValueWidth_eq _)))).bind
        fun _ s₃ happend => ?_
  obtain ⟨cache, rfl, -, hcache⟩ := (s₂.onCache_append_spec hn _ hkey hvalue).ok rfl happend
  refine Stream.Follows.get_bind ?_
  have hfinal : (s₂.withCache cache).cache.rows n =
      s₁.cache.rows n ++ [(rt.input n s₀.position hidden).value.2] := by
    show cache.rows n = _
    rw [hcache, Function.update_self, hs₂.rows_eq]
  rw [hfinal]
  exact submit_follows _ _ _

/-- A token that fits makes its calls. -/
theorem enqueueCurrentToken_follows {s₀ : Session rt} (hroom : s₀.Room) :
    Follows enqueueCurrentToken s₀ (tokenCalls rt s₀.currentToken s₀.core) := by
  refine Stream.Follows.get_bind ?_
  rw [if_neg (Nat.not_le.2 hroom.1)]
  refine (s₀.submit_follows .gather _).bind fun hidden s₁ hgather => ?_
  have hstage : ∀ index ok, noHead (.launch .gather index, ok) := fun _ _ => nofun
  obtain ⟨rfl, hs₁⟩ := (s₀.submit_spec .gather _ (fun _ => true) hstage fun _ => rfl).ok rfl hgather
  have hzero : Through s₀ 0 (rt.gather s₀.currentToken).value s₀ :=
    ⟨Stream.Since.refl _ _, rfl, rfl, rfl, rfl⟩
  obtain ⟨hlayers, hthrough⟩ := Stream.Follows.foldRange
    (Through s₀) (layerCalls rt s₀.currentToken s₀.core) rt.config.numHiddenLayers
    (rt.gather s₀.currentToken).value (hzero.called hs₁) fun n hn hidden y hy =>
      ⟨enqueueLayer_follows hy hn hroom, fun _ _ hrun =>
        (enqueueLayer_spec hy hn hroom.1).ok rfl hrun⟩
  refine hlayers.bind fun hidden s₂ hrun => ?_
  have hhidden : hiddenBefore rt s₀.currentToken s₀.core rt.config.numHiddenLayers = hidden :=
    congrArg Prod.fst (hthrough hidden s₂ hrun).through_eq
  rw [hhidden]
  refine (s₂.submit_follows .finalNorm (rt.finalNorm hidden)).bind fun normed s₃ _ => ?_
  exact (call_follows s₃ (.launch .lmHead 0)).bind_end fun _ y _ =>
    (Stream.Follows.modify (writeLogits normed) y rfl).bind_nil fun _ y _ =>
      Stream.Follows.modify _ y rfl

theorem finish_ok_follows {α : Type} (s : Session rt) (value : α) :
    Follows (finish (.ok value)) s [.synchronize .finish] := by
  refine Fallible.Spec.bind (call_follows s _).attempt fun r => ?_
  cases r with
  | ok _ => exact Fallible.Spec.pure _ fun _ h => h
  | error e => exact Fallible.Spec.bind (R := fun _ _ => False) (Fallible.Spec.fail e
      fun _ h => h) fun _ _ h => h.elim

/-- Work that is submitted and waited for. -/
theorem awaited_follows {α β : Type} {m : Fallible (Session rt) NnisError α} {s : Session rt}
    {f : α → Fallible (Session rt) NnisError β} {plan after : List CallSite}
    (hm : Follows m s plan) (hf : ∀ a y, Follows (f a) y after) :
    Follows (m.attempt >>= fun r => finish r >>= f) s
      (plan ++ ([.synchronize .finish] ++ after)) := by
  refine Fallible.Spec.bind hm.attempt fun r => Fallible.Spec.of_forall fun s₁ hs₁ => ?_
  cases r with
  | ok a =>
    refine (((finish_ok_follows s₁ a).bind fun a y _ => hf a y)).conseq (fun _ h => h)
      (fun _ _ h => ?_) fun _ _ h => ?_
    · exact Stream.Completed.append hs₁ h
    · exact Stream.Completed.append_cutShort hs₁ h
  | error e =>
    have hcut : Stream.CutShort noHead (plan ++ ([.synchronize .finish] ++ after)) s.stream
        s₁.stream := Stream.CutShort.append hs₁ _
    have hwait : ∀ ok, noHead (.synchronize .finish, ok) := fun _ => nofun
    refine Fallible.Spec.bind (R := fun _ _ => False) (Fallible.Spec.bind
      (R := fun _ y => Stream.CutShort noHead (plan ++ ([.synchronize .finish] ++ after))
        s.stream y.stream) (Fallible.Spec.attempt ((s₁.call_spec _ (fun _ => true) hwait
          rfl).conseq (fun _ h => h) (fun _ _ h => hcut.trans h.since)
            fun _ _ h => hcut.trans h.1.since)) fun _ => Fallible.Spec.fail _ fun _ h => h)
      fun _ => fun _ h => h.elim

theorem readLogits_follows (s : Session rt) : Follows readLogits s [.downloadLogits] :=
  (call_follows s .downloadLogits).bind fun _ y _ =>
    Stream.Follows.get_bind (Stream.Follows.pure y.logits y)

/-- Decoding a token of the vocabulary that fits makes its calls. -/
theorem decodeOne_follows {s₀ : Session rt} {token : UInt32} (hroom : s₀.Room)
    (htoken : token.toNat < rt.config.vocabSize) :
    Follows (decodeOne token) s₀ (decodeCalls rt token s₀.core) := by
  have hvalid : validateToken rt token = .ok ⟨⟩ := validateToken_eq_ok_iff.2 htoken
  rw [decodeOne, hvalid, Fallible.ofExcept_ok_bind]
  refine Stream.Follows.get_bind ?_
  have hcapacity : ¬ s₀.capacity ≤ s₀.position := Nat.not_le.2 hroom.1
  rw [if_neg hcapacity]
  refine awaited_follows ?_ fun _ y => readLogits_follows y
  · refine (call_follows s₀ .uploadToken).bind fun _ s₁ hupload => ?_
    have hany : ∀ ok, noHead (.uploadToken, ok) := fun _ => nofun
    have hs₁ := (s₀.call_spec .uploadToken (fun _ => true) hany rfl).ok rfl hupload
    refine (Stream.Follows.modify (writeToken token) s₁ rfl).bind_nil fun _ s₂ hwrite => ?_
    cases hwrite
    have hcore : (s₁.writeToken token).core = s₀.core := hs₁.core_eq
    have hroom' : (s₁.writeToken token).Room := by
      refine ⟨?_, fun l hl => ?_⟩
      · show s₁.position < _
        rw [hs₁.position_eq]
        exact hroom.1
      · show s₁.cache.rowCount l < _
        rw [← KvCache.length_rows, hs₁.rows_eq, KvCache.length_rows]
        exact hroom.2 l hl
    have hfollows := enqueueCurrentToken_follows hroom'
    rw [hcore] at hfollows
    exact hfollows

/-! ### A verification -/

/-- The calls of a token do not depend on the logits held. -/
theorem decodeCalls_congr {c c' : Decoder.State (KvRow V) (List F32)} (h : c.SameRows c')
    (token : UInt32) : decodeCalls rt token c = decodeCalls rt token c' := by
  have hlayers : layerCalls rt token c = layerCalls rt token c' := funext fun layer => by
    simp only [layerCalls, hiddenBefore, rowsWith, h.1, h.2]
  simp only [decodeCalls, tokenCalls, hlayers, hiddenBefore, h.1, h.2]

/-- The calls that decode some tokens one after the other. -/
def draftCalls (rt : Pipeline V) :
    List UInt32 → Decoder.State (KvRow V) (List F32) → List CallSite
  | [], _ => []
  | token :: rest, c => decodeCalls rt token c ++ draftCalls rt rest (rt.decoder.step token c)

/-- The calls of a step: those of the scheduled tokens, and if their rows and the counters are
accepted, the rewind and the calls of the emitted token after the accepted ones. -/
def stepCalls (s : Session rt) (draft : SpeculativeDraftV1) (schedule : ConfidenceScheduleV1)
    (stats : SpeculativeAcceptanceStatsV1) : List CallSite :=
  draftCalls rt (schedule.scheduled draft) s.core ++
    match judgeGreedy rt.config.vocabSize draft schedule (s.draftRows draft schedule).flatten with
    | .error _ => []
    | .ok verification =>
      match recorded stats verification with
      | .error _ => []
      | .ok _ => [.synchronize .rewind] ++ verification.emittedTokens.getLast?.toList.flatMap
          fun emitted => decodeCalls rt emitted ((target rt).advance
            ((schedule.scheduled draft).take verification.accepted) s.core)

/-- The calls of a verification up to the end of its step. -/
def verifyCalls (s : Session rt) (draft : SpeculativeDraftV1) (schedule : ConfidenceScheduleV1)
    (stats : SpeculativeAcceptanceStatsV1) : List CallSite :=
  [.synchronize .verify, .downloadLogits] ++ s.stepCalls draft schedule stats

/-- The launches of the LM head in a verification before the first call that the driver refuses. -/
def headsAdmitted (s : Session rt) (draft : SpeculativeDraftV1) (schedule : ConfidenceScheduleV1)
    (stats : SpeculativeAcceptanceStatsV1) : ℕ :=
  (s.stream.admitted (s.verifyCalls draft schedule stats)).count (.launch .lmHead 0)

theorem readCurrentLogits_follows (s : Session rt) :
    Follows readCurrentLogits s [.synchronize .verify, .downloadLogits] :=
  (call_follows s (.synchronize .verify)).bind fun _ y _ => readLogits_follows y

/-- The tokens of a draft make their calls one after the other. -/
private theorem forced_follows (width : ℕ) (tokens : List UInt32) {s : Session rt} (ha : s.Aligned)
    (htokens : ∀ token ∈ tokens, token.toNat < rt.config.vocabSize)
    (hcapacity : s.position + tokens.length ≤ rt.config.maxPositionEmbeddings)
    (hwidth : rt.config.vocabSize = width) (rows : List F32) :
    Follows (Fallible.foldEach tokens rows fun token rows => do
      let logits ← decodeOne token
      if logits.length ≠ width then
        Fallible.fail (.invalidInput
          s!"decode returned {logits.length} logits; expected {width}")
      else return rows ++ logits) s (draftCalls rt tokens s.core) := by
  induction tokens generalizing s rows with
  | nil => exact Stream.Follows.pure rows s
  | cons token tokens ih =>
    rw [List.forall_mem_cons] at htokens
    rw [List.length_cons] at hcapacity
    have hbody : Follows (do
        let logits ← decodeOne token
        if logits.length ≠ width then
          Fallible.fail (.invalidInput
            s!"decode returned {logits.length} logits; expected {width}")
        else return rows ++ logits) s (decodeCalls rt token s.core) := by
      refine (decodeOne_follows (ha.room (by omega)) htokens.1).bind_end fun logits y hrun => ?_
      obtain ⟨-, rfl⟩ := (decodeOne_spec token s).ok rfl hrun
      rw [if_neg (not_not.2 (y.length_logits.trans hwidth))]
      exact Stream.Follows.pure _ y
    refine hbody.bind fun rows' y hrun => ?_
    obtain ⟨logits, z, hdecoded, hrest⟩ := Fallible.of_run_bind_ok hrun
    obtain rfl : y = z := by
      split_ifs at hrest
      · cases hrest
      · exact (congrArg Prod.snd hrest).symm
    have hy := ((decodeOne_spec token s).ok rfl hdecoded).1
    have hposition : y.position = s.position + 1 := congrArg Decoder.State.position hy.core_eq
    rw [← hy.core_eq]
    exact ih (hy.aligned ha) htokens.2 (by omega) rows'

theorem rewindTo_follows {s : Session rt} {position : ℕ}
    (hle : ∀ l < rt.config.numHiddenLayers, position ≤ s.cache.rowCount l) :
    Follows (rewindTo position) s [.synchronize .rewind] := by
  refine (call_follows s (.synchronize .rewind)).bind_end fun _ y hcall => ?_
  have hwait : ∀ ok, noHead (.synchronize .rewind, ok) := fun _ => nofun
  have hy := (s.call_spec _ (fun _ => true) hwait rfl).ok rfl hcall
  have htruncate : Stream.Follows noHead KvCache.stream (KvCache.truncate position) y.cache [] := by
    refine (y.cache.truncate_spec position).conseq (fun _ hc => hc) (fun _ c hc => ?_)
      fun _ c hc => ?_
    · rw [hc.1]
      exact Stream.Completed.refl _
    · obtain ⟨l, hl, hshort⟩ := hc.2
      rw [← KvCache.length_rows, hy.rows_eq, KvCache.length_rows] at hshort
      exact absurd (hle l hl) (Nat.not_le.2 hshort)
  have hzoom : Follows (onCache (KvCache.truncate position)) y [] :=
    Stream.Follows.zoom KvCache.stream rfl (fun _ => rfl) htruncate
  exact hzoom.bind_nil fun _ z _ => Stream.Follows.modify (setPosition position) z rfl

/-- The emitted token of a step that is back at the accepted prefix makes its calls. -/
private theorem emitted_follows {s₀ s : Session rt} {draft : SpeculativeDraftV1}
    {schedule : ConfidenceScheduleV1} {accepted : ℕ} (h : Rewound s₀ draft schedule accepted s)
    (ha : s₀.Aligned) (haccepted : accepted ≤ schedule.scheduledLen draft)
    (hcapacity : s₀.position + schedule.scheduledLen draft + 1 ≤ rt.config.maxPositionEmbeddings)
    {token : UInt32} (htoken : token.toNat < rt.config.vocabSize) :
    Follows (decodeOne token) s (decodeCalls rt token
      ((target rt).advance ((schedule.scheduled draft).take accepted) s₀.core)) := by
  have hposition : s.position < rt.config.maxPositionEmbeddings := by
    rw [h.position_eq haccepted]
    omega
  rw [← decodeCalls_congr h.sameRows]
  exact decodeOne_follows ((h.aligned ha).room hposition) htoken

/-- A step of an aligned session for a draft of the vocabulary that fits makes its calls, or those
of them that the driver admits. -/
theorem speculativeStep_outcome (s₀ : Session rt) (draft : SpeculativeDraftV1)
    (schedule : ConfidenceScheduleV1) (stats : SpeculativeAcceptanceStatsV1) (ha : s₀.Aligned)
    (htokens : ∀ token ∈ draft.tokens, token.toNat < rt.config.vocabSize)
    (hcapacity : s₀.position + schedule.scheduledLen draft + 1 ≤
      rt.config.maxPositionEmbeddings) :
    Fallible.Spec (fun s => s = s₀) (speculativeStep s₀.position s₀.logits draft schedule stats)
      (fun _ s => Stream.Completed (s₀.stepCalls draft schedule stats) s₀.stream s.stream)
      fun _ s => Stream.Completed (s₀.stepCalls draft schedule stats) s₀.stream s.stream ∨
        Stream.CutShort noHead (s₀.stepCalls draft schedule stats) s₀.stream s.stream := by
  have hforced : Follows (teacherForcedLogits s₀.logits draft schedule) s₀
      (draftCalls rt (schedule.scheduled draft) s₀.core) :=
    forced_follows _ _ ha (fun token htoken => htokens token (List.mem_of_mem_take htoken))
      ((Nat.add_le_add_left (schedule.length_scheduled draft).le _).trans (by omega))
        s₀.length_logits.symm _
  intro s hs
  subst hs
  rcases hrun : (teacherForcedLogits s.logits draft schedule).run s with ⟨e | rows, s₁⟩
  · rw [speculativeStep, Fallible.run_bind_error hrun]
    exact .inr ((hforced.error rfl hrun).append _)
  have hdraft := hforced.ok rfl hrun
  obtain ⟨hs₁, hrows⟩ := (s.teacherForcedLogits_spec draft schedule).ok rfl hrun
  subst hrows
  rw [speculativeStep, Fallible.run_bind_ok hrun, stepCalls]
  rcases hjudged : judgeGreedy rt.config.vocabSize draft schedule
      (s.draftRows draft schedule).flatten with e | verification
  · rw [Fallible.run_bind_error (Fallible.run_ofExcept _ s₁)]
    exact .inl (hdraft.append (.refl _))
  rw [Fallible.ofExcept_ok_bind]
  dsimp only
  rcases hrecorded : recorded stats verification with e | nextStats
  · rw [Fallible.run_bind_error (Fallible.run_ofExcept _ s₁)]
    exact .inl (hdraft.append (.refl _))
  rw [Fallible.ofExcept_ok_bind]
  obtain ⟨hlen, hvocab, hverification⟩ :=
    judgeGreedy_ok (fun _ => length_of_mem_draftRows) hjudged
  obtain ⟨token, hmem, hemitted⟩ := SpeculativeVerificationV1.exists_emittedTokens_eq hlen
  have haccepted := SpeculativeVerificationV1.accepted_ofTargets_le draft schedule
    ((s.draftRows draft schedule).map lowestArgmax)
  rw [← hverification] at hemitted haccepted
  have hlast : verification.emittedTokens.getLast? = some token := by
    rw [hemitted, List.getLast?_append, List.getLast?_singleton, Option.some_or]
  have hle : ∀ l < rt.config.numHiddenLayers,
      s.position + verification.accepted ≤ s₁.cache.rowCount l := by
    intro l hl
    rw [(hs₁.aligned ha).rowCount_eq hl, hs₁.position_eq, schedule.length_scheduled]
    omega
  have hrest := (rewindTo_follows hle).bind (f := fun _ => do
      let nextLogits ← decodeOne token
      return (verification, nextStats, nextLogits)) fun _ s₂ hrewind => by
    obtain ⟨hsince, hcore, -⟩ := (rewindTo_spec _ s₁).ok rfl hrewind
    have hdecode := emitted_follows (hs₁.rewound ha haccepted hsince hcore) ha haccepted hcapacity
      (hvocab token hmem)
    exact hdecode.bind_end fun _ y _ => Stream.Follows.pure _ y
  rw [hlast]
  dsimp only
  rw [Option.toList_some, List.flatMap_singleton]
  exact Fallible.Post.imp (fun _ _ h => hdraft.append h) (fun _ _ h => .inr
    (hdraft.append_cutShort h)) (hrest s₁ rfl)

/-- A failed step has launched the LM head as often as the driver admits it in the verification. -/
theorem heads_eq_of_failed {s s₀ s₁ : Session rt} {draft : SpeculativeDraftV1}
    {schedule : ConfidenceScheduleV1} {stats : SpeculativeAcceptanceStatsV1} {current : List F32}
    {e : NnisError} (ha : s.Aligned) (hvalid : validateDraft s draft schedule = .ok ⟨⟩)
    (hread : readCurrentLogits.run s = (.ok current, s₀))
    (hstep : (speculativeStep s.position current draft schedule stats).run s₀ = (.error e, s₁)) :
    s₁.heads = s.heads + s.headsAdmitted draft schedule stats := by
  have hcompleted := (readCurrentLogits_follows s).ok rfl hread
  obtain ⟨rfl, hs₀⟩ := s.readCurrentLogits_spec.ok rfl hread
  obtain ⟨-, htokens, hcapacity⟩ := validateDraft_eq_ok_iff.1 hvalid
  rw [← hs₀.logits_eq, ← hs₀.position_eq] at hstep
  have houtcome := (s₀.speculativeStep_outcome draft schedule stats (hs₀.aligned ha) htokens
    (hs₀.position_eq ▸ hcapacity)).error rfl hstep
  have hplan : s₀.stepCalls draft schedule stats = s.stepCalls draft schedule stats := by
    obtain ⟨stream, rfl, -⟩ := hs₀
    rfl
  rw [hplan] at houtcome
  rcases houtcome with h | h
  · exact (hcompleted.append h).accepted_eq _
  · exact (hcompleted.append_cutShort h).accepted_eq fun hk => hk rfl

end Session

end NNIS
