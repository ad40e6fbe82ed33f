import NNIS.Model.Session

/-!
# One token in a session

What encoding a token does to a session. When it returns, the session has made one step of the
decoder that its pipeline computes. When it fails, the position and the logits are as before, and
every layer still holds its rows; a layer that the token had already passed holds one more. This
needs the refusal of a call made in the middle of the token, since a token that fits is never
rejected there.

## Main definitions

* `Session.core` — the decoder state that a session holds.
* `Session.midToken` — the calls made after some layer has taken the row of the token.
* `Session.Encoded`, `Session.Interrupted` — the two outcomes of encoding a token.

## Main results

* `Session.enqueueCurrentToken_spec`.
-/

set_option autoImplicit false

namespace NNIS

namespace Session

variable {V : Type} {rt : Pipeline V}

/-- The decoder state that a session holds: its position, its active rows and its logits. -/
def core (s : Session rt) : Decoder.State (KvRow V) (List F32) :=
  ⟨s.position, s.cache.rows, s.logits⟩

/-- The number of logits rows written on the stream of a session. -/
def heads (s : Session rt) : ℕ := s.stream.accepted (.launch .lmHead 0)

/-- There is a free position, and a free row in every layer. -/
def Room (s : Session rt) : Prop :=
  s.position < rt.config.maxPositionEmbeddings ∧
    ∀ l < rt.config.numHiddenLayers, s.cache.rowCount l < rt.config.maxPositionEmbeddings

/-- The calls made after some layer has taken the row of a token and before the position moves. -/
def midToken : CallSite → Bool
  | .launch (.input layer) _ => 0 < layer
  | .launch (.output _) _ => true
  | .launch .finalNorm _ => true
  | .launch .lmHead _ => true
  | .prepareAppend layer => 0 < layer
  | .appendKey layer _ => 0 < layer
  | .appendValue layer _ => 0 < layer
  | .recordAppend layer => 0 < layer
  | _ => false

/-- Any call but an accepted launch of the LM head. -/
def noHead (r : CallRecord) : Prop := r ≠ (.launch .lmHead 0, true)

theorem heads_eq_of_since {s₀ s : Session rt} (h : Stream.Since noHead s₀.stream s.stream) :
    s.heads = s₀.heads :=
  h.accepted_eq fun hk => hk rfl

theorem rows_of_le (s : Session rt) {l : ℕ} (h : rt.config.numHiddenLayers ≤ l) :
    s.cache.rows l = [] :=
  s.cache.rows_of_le h

/-! ### Calls -/

/-- Only the stream has moved, by calls of a kind. -/
def Called (kind : CallRecord → Prop) (s₀ s : Session rt) : Prop :=
  ∃ stream, s = s₀.withStream stream ∧ Stream.Since kind s₀.stream stream

namespace Called

variable {kind kind' : CallRecord → Prop} {s₀ s₁ s : Session rt}

theorem refl (kind : CallRecord → Prop) (s : Session rt) : Called kind s s :=
  ⟨s.stream, rfl, Stream.Since.refl _ _⟩

theorem trans (h : Called kind s₀ s₁) (h' : Called kind s₁ s) : Called kind s₀ s := by
  obtain ⟨stream, rfl, hs⟩ := h
  obtain ⟨stream', rfl, hs'⟩ := h'
  exact ⟨stream', rfl, hs.trans hs'⟩

theorem since (h : Called kind s₀ s) : Stream.Since kind s₀.stream s.stream := by
  obtain ⟨stream, rfl, hs⟩ := h
  exact hs

theorem core_eq (h : Called kind s₀ s) : s.core = s₀.core := by
  obtain ⟨stream, rfl, -⟩ := h
  rfl

theorem rows_eq (h : Called kind s₀ s) : s.cache.rows = s₀.cache.rows := by
  obtain ⟨stream, rfl, -⟩ := h
  rfl

theorem position_eq (h : Called kind s₀ s) : s.position = s₀.position := by
  obtain ⟨stream, rfl, -⟩ := h
  rfl

theorem logits_eq (h : Called kind s₀ s) : s.logits = s₀.logits := by
  obtain ⟨stream, rfl, -⟩ := h
  rfl

theorem currentToken_eq (h : Called kind s₀ s) : s.currentToken = s₀.currentToken := by
  obtain ⟨stream, rfl, -⟩ := h
  rfl

end Called

/-- Some call from given sites has been refused by an environment that does not accept every
call. -/
def Refused (sites : CallSite → Bool) (s : Session rt) : Prop :=
  s.stream.Refused sites ∧ ¬ s.stream.Accepting

theorem Refused.mono {sites sites' : CallSite → Bool} {s : Session rt} (h : s.Refused sites)
    (hs : ∀ site, sites site = true → sites' site = true) : s.Refused sites' := by
  obtain ⟨⟨site, hsite, hmem⟩, hna⟩ := h
  exact ⟨⟨site, hs site hsite, hmem⟩, hna⟩

theorem call_spec (s₀ : Session rt) (site : CallSite) (sites : CallSite → Bool)
    {kind : CallRecord → Prop} (hkind : ∀ ok, kind (site, ok)) (hsite : sites site = true) :
    Fallible.Spec (fun s => s = s₀) (call site) (fun _ s => Called kind s₀ s)
      fun _ s => Called kind s₀ s ∧ s.Refused sites := by
  refine ((s₀.cache.call_spec site hkind).zoom s₀).conseq (fun s hs => ⟨hs, hs ▸ rfl⟩) ?_ ?_
  · rintro - s ⟨c, ⟨stream, rfl, hs⟩, rfl⟩
    exact ⟨stream, rfl, hs⟩
  · rintro - s ⟨c, ⟨stream, rfl, hs, hmem, hna⟩, rfl⟩
    exact ⟨⟨stream, rfl, hs⟩, ⟨site, hsite, hmem⟩, hna⟩

/-- A stage is submitted, or one of its launches is refused. -/
theorem submit_spec {α : Type} (s₀ : Session rt) (stage : Stage) (batch : Batch α)
    (sites : CallSite → Bool) {kind : CallRecord → Prop}
    (hkind : ∀ index ok, kind (.launch stage index, ok))
    (hsite : ∀ index, sites (.launch stage index) = true) :
    Fallible.Spec (fun s => s = s₀) (submit stage batch)
      (fun value s => value = batch.value ∧ Called kind s₀ s)
      fun _ s => Called kind s₀ s ∧ s.Refused sites := by
  refine Fallible.Spec.bind (R := fun _ => Called kind s₀)
    ((Fallible.Spec.forRange (fun _ => Called kind s₀) _ fun index _ => ?_).conseq
      (fun s hs => hs ▸ Called.refl kind s₀) (fun _ _ hs => hs) fun _ _ hs => hs)
    fun _ => Fallible.Spec.pure _ fun s hs => ⟨rfl, hs⟩
  refine Fallible.Spec.of_forall fun s₁ hs₁ =>
    (s₁.call_spec _ sites (hkind index) (hsite index)).conseq (fun _ hs => hs) ?_ ?_
  · rintro - s hs
    exact hs₁.trans hs
  · rintro - s ⟨hs, hr⟩
    exact ⟨hs₁.trans hs, hr⟩

/-! ### A token on its way -/

/-- The session when a token has passed the first `n` layers, with its hidden value there. -/
structure Through (s₀ : Session rt) (n : ℕ) (hidden : List V) (s : Session rt) : Prop where
  since : Stream.Since noHead s₀.stream s.stream
  position_eq : s.position = s₀.position
  logits_eq : s.logits = s₀.logits
  currentToken_eq : s.currentToken = s₀.currentToken
  through_eq : rt.decoder.through s₀.position (rt.decoder.embed s₀.currentToken) s₀.cache.rows n =
    (hidden, s.cache.rows)

/-- The session after a token that has failed on its way. -/
structure Interrupted (s₀ s : Session rt) : Prop where
  since : Stream.Since noHead s₀.stream s.stream
  position_eq : s.position = s₀.position
  logits_eq : s.logits = s₀.logits
  rows_prefix : ∀ l, s₀.cache.rows l <+: s.cache.rows l
  /-- If some layer has taken the row of the token, then a call has been refused after that, or some
  other layer was full. -/
  rows_eq : s.cache.rows = s₀.cache.rows ∨ s.stream.Refused midToken ∨
    (s₀.position < rt.config.maxPositionEmbeddings ∧ ¬ s₀.Room)
  not_accepting : ¬ s.stream.Accepting ∨ ¬ s₀.Room

/-- The session after a token. -/
structure Encoded (s₀ s : Session rt) : Prop where
  since : Stream.Since (fun _ => True) s₀.stream s.stream
  heads_eq : s.heads = s₀.heads + 1
  core_eq : s.core = rt.decoder.step s₀.currentToken s₀.core

namespace Through

variable {s₀ s₁ s : Session rt} {n : ℕ} {hidden : List V}

theorem called (h : Through s₀ n hidden s₁) (hc : Called noHead s₁ s) : Through s₀ n hidden s where
  since := h.since.trans hc.since
  position_eq := hc.position_eq.trans h.position_eq
  logits_eq := hc.logits_eq.trans h.logits_eq
  currentToken_eq := hc.currentToken_eq.trans h.currentToken_eq
  through_eq := by rw [h.through_eq, hc.rows_eq]

theorem rows_prefix (h : Through s₀ n hidden s) (l : ℕ) : s₀.cache.rows l <+: s.cache.rows l := by
  obtain ⟨x, hx⟩ := rt.decoder.rows_through s₀.position (rt.decoder.embed s₀.currentToken)
    s₀.cache.rows n l
  rw [h.through_eq] at hx
  change s.cache.rows l = _ at hx
  rw [hx]
  split_ifs
  · exact List.prefix_append _ _
  · exact List.prefix_rfl

/-- The layers that the token has not reached are as before. -/
theorem rows_eq (h : Through s₀ n hidden s) {l : ℕ} (hl : n ≤ l) :
    s.cache.rows l = s₀.cache.rows l := by
  obtain ⟨x, hx⟩ := rt.decoder.rows_through s₀.position (rt.decoder.embed s₀.currentToken)
    s₀.cache.rows n l
  rw [h.through_eq, if_neg (Nat.not_lt.2 hl)] at hx
  exact hx

/-- A call refused on the way interrupts the token. Before the first row there is nothing to
undo. -/
theorem interrupted (h : Through s₀ n hidden s) {sites : CallSite → Bool} (hr : s.Refused sites)
    (hsites : 0 < n → ∀ site, sites site = true → midToken site = true) : Interrupted s₀ s where
  since := h.since
  position_eq := h.position_eq
  logits_eq := h.logits_eq
  rows_prefix := h.rows_prefix
  rows_eq := by
    rcases Nat.eq_zero_or_pos n with rfl | hn
    · exact Or.inl (funext fun l => h.rows_eq (Nat.zero_le l))
    · exact Or.inr (Or.inl (hr.mono (hsites hn)).1)
  not_accepting := Or.inl hr.2

end Through

/-- The width of a packed row is that of one token in every head. -/
theorem keyValueWidth_eq (config : ModelConfig) :
    config.keyValueWidth = config.cache.heads * 1 * config.cache.headDim := by
  rw [Nat.mul_one]
  rfl

/-- The rows while a layer works: an append to it that returns adds one row, one that fails adds
none. -/
theorem onCache_append_spec (s₀ : Session rt) {layer : ℕ}
    (hlayer : layer < rt.config.numHiddenLayers)
    (row : KvRow V) (hkey : row.key.length = rt.config.keyValueWidth)
    (hvalue : row.value.length = rt.config.keyValueWidth) :
    Fallible.Spec (fun s => s = s₀) (onCache (KvCache.appendLayerAsync layer row.key row.value 1))
      (fun _ s => ∃ c, s = s₀.withCache c ∧ Stream.Since noHead s₀.stream c.stream ∧
        c.rows = Function.update s₀.cache.rows layer (s₀.cache.rows layer ++ [row]))
      fun _ s => ∃ c, s = s₀.withCache c ∧ Stream.Since noHead s₀.stream c.stream ∧
        c.rows = s₀.cache.rows ∧ (s.Refused (KvCache.appendSite layer) ∨
          rt.config.maxPositionEmbeddings ≤ s₀.cache.rowCount layer) := by
  have hnoHead : ∀ r, KvCache.appendCall layer r → noHead r := by
    rintro r hr rfl
    rcases hr with hr | hr
    · exact Bool.false_ne_true hr
    · cases hr
  by_cases hfull : rt.config.maxPositionEmbeddings < s₀.cache.rowCount layer + 1
  · rintro s rfl
    obtain ⟨e, he⟩ := s.cache.appendLayerAsync_of_full row.key row.value
      hlayer hfull
    rw [onCache, Fallible.run_zoom, he]
    exact ⟨s.cache, rfl, Stream.Since.refl _ _, rfl, Or.inr (Nat.le_of_lt_succ hfull)⟩
  · refine ((s₀.cache.appendLayerAsync_spec hlayer (Nat.not_lt.1 hfull)
      (hkey.trans (keyValueWidth_eq _)) (hvalue.trans (keyValueWidth_eq _))).zoom s₀).conseq
        (fun s hs => ⟨hs, hs ▸ rfl⟩) ?_ ?_
    · rintro - s ⟨c, hc, rfl⟩
      refine ⟨c, rfl, hc.since.mono hnoHead, funext fun l => ?_⟩
      rw [hc.rows_eq l, Function.update_apply, packedRows_one hkey hvalue]
      split_ifs with hl
      · rw [hl]
      · rfl
    · rintro - s ⟨c, hc, rfl⟩
      exact ⟨c, rfl, hc.since.mono hnoHead, funext hc.rows_eq,
        Or.inl ⟨hc.refused, hc.not_accepting⟩⟩

/-- A token passes one more layer, or it is interrupted. -/
theorem enqueueLayer_spec {s₀ s₁ : Session rt} {n : ℕ} {hidden : List V}
    (h : Through s₀ n hidden s₁) (hn : n < rt.config.numHiddenLayers)
    (hposition : s₀.position < rt.config.maxPositionEmbeddings) :
    Fallible.Spec (fun s => s = s₁) (enqueueLayer s₀.position n hidden)
      (fun hidden' => Through s₀ (n + 1) hidden') fun _ => Interrupted s₀ := by
  have hnoHead {stage : Stage} (hstage : stage ≠ .lmHead) (index : ℕ) (ok : Bool) :
      noHead (.launch stage index, ok) := by
    intro he
    simp only [Prod.mk.injEq, CallSite.launch.injEq] at he
    exact hstage he.1.1
  refine Fallible.Spec.bind ((s₁.submit_spec (.input n) _ (fun site =>
      midToken site || n == 0) (hnoHead Stage.noConfusion) fun index => ?_).conseq
    (fun _ hs => hs) (fun _ _ hs => hs) ?_) fun batch =>
      Fallible.Spec.of_forall fun s₂ ⟨hbatch, hs₂⟩ => ?_
  · rcases Nat.eq_zero_or_pos n with rfl | hpos
    · exact Bool.or_true _
    · simp only [midToken, hpos, decide_true, Bool.true_or]
  · rintro - s ⟨hs, hr⟩
    refine (h.called hs).interrupted hr fun hpos site hsite => ?_
    simpa only [beq_eq_false_iff_ne.2 hpos.ne', Bool.or_false] using hsite
  · have hthrough := h.called hs₂
    subst hbatch
    refine Fallible.Spec.bind ((s₂.onCache_append_spec hn _ (rt.length_key _ _ _)
      (rt.length_value _ _ _)).conseq (fun _ hs => hs) (fun _ _ hs => hs) ?_) fun _ =>
        Fallible.Spec.of_forall fun s₃ ⟨c, hc, hsince, hrows⟩ => ?_
    · rintro - s ⟨c, rfl, hsince, hrows, hfail⟩
      have hcalled : Through s₀ n hidden (s₂.withCache c) :=
        ⟨hthrough.since.trans hsince, hthrough.position_eq, hthrough.logits_eq,
          hthrough.currentToken_eq, by rw [hthrough.through_eq]; exact congrArg _ hrows.symm⟩
      rcases hfail with hr | hfull
      · refine hcalled.interrupted hr fun hpos site hsite => ?_
        cases site <;> simp_all [KvCache.appendSite, midToken]
      · have hroom : ¬ s₀.Room := by
          intro hroom
          have hcount := hroom.2 n hn
          rw [← KvCache.length_rows, ← hthrough.rows_eq (Nat.le_refl n),
            KvCache.length_rows] at hcount
          omega
        exact ⟨hcalled.since, hcalled.position_eq, hcalled.logits_eq, hcalled.rows_prefix,
          Or.inr (Or.inr ⟨hposition, hroom⟩), Or.inr hroom⟩
    · subst hc
      -- The rows of the layer are read back with the new one among them.
      have hpassed : rt.decoder.through s₀.position (rt.decoder.embed s₀.currentToken)
          s₀.cache.rows (n + 1) = ((rt.output n hidden (rt.input n s₀.position hidden).value.1
            (c.rows n)).value, c.rows) := by
        rw [hrows, hs₂.rows_eq, Decoder.through, h.through_eq]
        rfl
      refine Fallible.Spec.bind (R := fun now s => now = s₂.withCache c ∧ s = s₂.withCache c)
        (Fallible.Spec.get fun s hs => ⟨hs, hs⟩) fun now => Fallible.Spec.of_forall
          fun s₄ ⟨hnow, hs₄⟩ => ?_
      subst hnow hs₄
      refine ((s₂.withCache c).submit_spec (.output n) _ midToken
        (hnoHead Stage.noConfusion) fun _ => rfl).conseq (fun _ hs => hs) ?_ ?_
      · rintro hidden' s ⟨rfl, hs⟩
        exact ⟨(hthrough.since.trans hsince).trans hs.since,
          hs.position_eq.trans hthrough.position_eq, hs.logits_eq.trans hthrough.logits_eq,
          hs.currentToken_eq.trans hthrough.currentToken_eq, by rw [hpassed, hs.rows_eq]; rfl⟩
      · rintro - s ⟨hs, hr⟩
        have hprefix (l : ℕ) : s₀.cache.rows l <+: s.cache.rows l := by
          rw [hs.rows_eq]
          refine (hthrough.rows_prefix l).trans ?_
          show s₂.cache.rows l <+: c.rows l
          rw [hrows, Function.update_apply]
          split_ifs with hl
          · rw [hl]
            exact List.prefix_append _ _
          · exact List.prefix_rfl
        exact ⟨(hthrough.since.trans hsince).trans hs.since,
          hs.position_eq.trans hthrough.position_eq, hs.logits_eq.trans hthrough.logits_eq,
          hprefix, Or.inr (Or.inl hr.1), Or.inl hr.2⟩

/-- The launch of the LM head is counted when it is accepted. -/
theorem head_spec (s₀ : Session rt) :
    Fallible.Spec (fun s => s = s₀) (call (.launch .lmHead 0))
      (fun _ s => Called (fun _ => True) s₀ s ∧ s.heads = s₀.heads + 1)
      fun _ s => Called noHead s₀ s ∧ s.Refused midToken := by
  have hany : ∀ ok, anyCall (.launch .lmHead 0, ok) := fun _ => trivial
  have h := @Fallible.Spec.zoom _ _ _ _ stream withStream _ s₀ _ _ _
    (Stream.call_spec s₀.stream (.launch .lmHead 0) hany)
  refine h.conseq (fun s hs => ⟨hs, hs ▸ rfl⟩) ?_ ?_
  · rintro - s ⟨stream, ⟨hs, hh⟩, rfl⟩
    refine ⟨⟨stream, rfl, hs⟩, ?_⟩
    show stream.history.count _ = _
    rw [hh, List.count_cons_self]
    rfl
  · rintro - s ⟨stream, ⟨hs, hh, hna⟩, rfl⟩
    refine ⟨⟨stream, rfl, hs.driver_eq, [(.launch .lmHead 0, false)], hh, fun r hr => ?_⟩,
      ⟨_, rfl, hh ▸ List.mem_cons_self⟩, hna⟩
    rw [List.mem_singleton.1 hr]
    intro he
    cases he

/-- A token that returns has made one step of the decoder. -/
theorem Through.encoded {s₀ s₁ s : Session rt} {hidden : List V}
    (h : Through s₀ rt.config.numHiddenLayers hidden s₁)
    (hs : Called (fun _ => True) s₁ s) (hheads : s.heads = s₁.heads + 1) :
    Encoded s₀ ((s.writeLogits (rt.finalNorm hidden).value).setPosition (s.position + 1)) where
  since := (h.since.mono fun _ _ => trivial).trans hs.since
  heads_eq := hheads.trans (congrArg (· + 1) (heads_eq_of_since h.since))
  core_eq := by
    have hrows : s.cache.rows = s₁.cache.rows := hs.rows_eq
    have hposition : s.position = s₀.position := hs.position_eq.trans h.position_eq
    have hthrough : rt.decoder.through s₀.core.position (rt.decoder.embed s₀.currentToken)
        s₀.core.rows rt.decoder.layers = (hidden, s₁.cache.rows) := h.through_eq
    show (⟨s.position + 1, s.cache.rows, rt.lmHead (rt.finalNorm hidden).value⟩ :
      Decoder.State (KvRow V) (List F32)) = _
    rw [hrows, hposition, Decoder.step, hthrough]
    rfl

/-- A token that returns has made one step of the decoder. A token that fails moves neither the
position nor the logits. -/
theorem enqueueCurrentToken_spec (s₀ : Session rt) :
    Fallible.Spec (fun s => s = s₀) enqueueCurrentToken (fun _ => Encoded s₀)
      fun _ => Interrupted s₀ := by
  refine Fallible.Spec.bind (R := fun s' s => s' = s₀ ∧ s = s₀)
    (Fallible.Spec.get fun s hs => ⟨hs, hs⟩) fun s' => Fallible.Spec.of_forall
      fun s₁ ⟨hs', hs₁⟩ => ?_
  rw [hs', hs₁]
  have hzero : Through s₀ 0 (rt.gather s₀.currentToken).value s₀ :=
    ⟨Stream.Since.refl _ _, rfl, rfl, rfl, rfl⟩
  have hnoHead {stage : Stage} (hstage : stage ≠ .lmHead) (index : ℕ) (ok : Bool) :
      noHead (.launch stage index, ok) := by
    intro he
    simp only [Prod.mk.injEq, CallSite.launch.injEq] at he
    exact hstage he.1.1
  split_ifs with hfull
  · refine Fallible.Spec.fail _ ?_
    rintro s rfl
    have hroom : ¬ s.Room := fun hroom => Nat.not_lt.2 hfull hroom.1
    exact ⟨Stream.Since.refl _ _, rfl, rfl, hzero.rows_prefix, Or.inl rfl, Or.inr hroom⟩
  · refine Fallible.Spec.bind ((s₀.submit_spec .gather _ (fun _ => true)
      (hnoHead Stage.noConfusion) fun _ => rfl).conseq (fun _ hs => hs) (fun _ _ hs => hs)
        fun _ s ⟨hs, hr⟩ => (hzero.called hs).interrupted hr fun hpos => absurd hpos (by omega))
      fun hidden => Fallible.Spec.of_forall fun s₂ ⟨hhidden, hs₂⟩ => ?_
    subst hhidden
    refine Fallible.Spec.bind ((Fallible.Spec.foldRange (Through s₀) _ _ fun n hn hidden =>
      Fallible.Spec.of_forall fun s hs => enqueueLayer_spec hs hn (Nat.not_le.1 hfull)).conseq
        (fun s hs => hs ▸ hzero.called hs₂) (fun _ _ hs => hs) fun _ _ hs => hs)
      fun hidden => Fallible.Spec.of_forall fun s₃ hs₃ => ?_
    refine Fallible.Spec.bind ((s₃.submit_spec .finalNorm _ midToken
      (hnoHead Stage.noConfusion) fun _ => rfl).conseq (fun _ hs => hs) (fun _ _ hs => hs)
        fun _ s ⟨hs, hr⟩ => (hs₃.called hs).interrupted hr fun _ _ hsite => hsite)
      fun normed => Fallible.Spec.of_forall fun s₄ ⟨hnormed, hs₄⟩ => ?_
    subst hnormed
    have hs₄' := hs₃.called hs₄
    refine Fallible.Spec.bind (s₄.head_spec.conseq (fun _ hs => hs) (fun _ _ hs => hs)
      fun _ s ⟨hs, hr⟩ => (hs₄'.called hs).interrupted hr fun _ _ hsite => hsite)
        fun _ => Fallible.Spec.bind (Fallible.Spec.modify _
          (Q := fun _ s => ∃ s', s = s'.writeLogits (rt.finalNorm hidden).value ∧
            Called (fun _ => True) s₄ s' ∧ s'.heads = s₄.heads + 1)
          fun s ⟨hs, hheads⟩ => ⟨s, rfl, hs, hheads⟩) fun _ => Fallible.Spec.modify _ ?_
    rintro - ⟨s, rfl, hs, hheads⟩
    exact hs₄'.encoded (s := s) hs hheads

end Session

end NNIS
