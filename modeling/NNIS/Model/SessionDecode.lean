import NNIS.Model.SessionTokens

/-!
# Decoding and rewinding

The outcomes of waiting, reading the logits, decoding one token, rewinding and resetting, in terms
of the decoder state that a session holds. A session is *aligned* when every layer holds one row
per position.

## Main definitions

* `Session.Aligned`, `Session.Decoded`, `Session.DecodeFailed`.

## Main results

* `Session.attempt_finish_spec` — waiting for submitted work.
* `Session.decodeOne_spec`, `Session.rewindTo_spec`, `Session.reset_spec`.
-/

set_option autoImplicit false

namespace NNIS

namespace Session

variable {V : Type} {rt : Pipeline V}

/-! ### Aligned sessions -/

/-- Every layer holds one row per position. -/
def Aligned (s : Session rt) : Prop := s.core.Aligned rt.config.numHiddenLayers

theorem Aligned.rowCount_eq {s : Session rt} (h : s.Aligned) {l : ℕ}
    (hl : l < rt.config.numHiddenLayers) : s.cache.rowCount l = s.position := by
  rw [← KvCache.length_rows]
  exact h l hl

theorem Aligned.room {s : Session rt} (h : s.Aligned)
    (hposition : s.position < rt.config.maxPositionEmbeddings) : s.Room :=
  ⟨hposition, fun _ hl => (h.rowCount_eq hl).trans_lt hposition⟩

theorem Aligned.of_core_eq {s s' : Session rt} (h : s.Aligned) (hcore : s'.core = s.core) :
    s'.Aligned := by
  unfold Aligned
  rw [hcore]
  exact h

theorem Called.aligned {kind : CallRecord → Prop} {s₀ s : Session rt} (hs : Called kind s₀ s)
    (h : s₀.Aligned) : s.Aligned :=
  h.of_core_eq hs.core_eq

theorem Called.interrupted {s₀ s₁ s : Session rt} (hs : Called noHead s₁ s)
    (h : Interrupted s₀ s₁) : Interrupted s₀ s where
  since := h.since.trans hs.since
  position_eq := hs.position_eq.trans h.position_eq
  logits_eq := hs.logits_eq.trans h.logits_eq
  rows_prefix l := hs.rows_eq ▸ h.rows_prefix l
  rows_eq := by
    rcases h.rows_eq with hr | hr | hr
    · exact Or.inl (hs.rows_eq.trans hr)
    · exact Or.inr (Or.inl (hs.since.refused hr))
    · exact Or.inr (Or.inr hr)
  not_accepting := h.not_accepting.imp_left hs.since.not_accepting

/-- A token interrupted in an aligned session leaves it aligned unless a call has been refused in
the middle of the token. -/
theorem Interrupted.aligned {s₀ s : Session rt} (h : Interrupted s₀ s) (ha : s₀.Aligned) :
    s.Aligned ∨ s.stream.Refused midToken := by
  rcases h.rows_eq with hr | hr | ⟨hposition, hroom⟩
  · refine Or.inl fun l hl => ?_
    show (s.cache.rows l).length = s.position
    rw [hr, h.position_eq]
    exact ha l hl
  · exact Or.inr hr
  · exact absurd (ha.room hposition) hroom

/-! ### Waiting -/

/-- The outcome of submitted work after the wait for it. -/
theorem attempt_finish_spec {α : Type} {m : Fallible (Session rt) NnisError α}
    {P : Session rt → Prop} {Q : α → Session rt → Prop} {E : NnisError → Session rt → Prop}
    (h : Fallible.Spec P m Q E) :
    Fallible.Spec P (m.attempt >>= finish)
      (fun a s => ∃ s₁, Q a s₁ ∧ Called noHead s₁ s)
      fun e s => (∃ s₁, E e s₁ ∧ Called noHead s₁ s) ∨
        ∃ a s₁, Q a s₁ ∧ Called noHead s₁ s ∧ ¬ s.stream.Accepting := by
  have hnoHead (ok : Bool) : noHead (.synchronize .finish, ok) := by
    intro he
    cases he
  refine (h.attempt (Q := Fallible.Spec.Returned Q E)).bind
    fun r => Fallible.Spec.of_forall fun s₁ hs₁ => ?_
  refine Fallible.Spec.bind (R := fun w s => Called noHead s₁ s ∧
    ∀ e, w = .error e → ¬ s.stream.Accepting) (Fallible.Spec.attempt
      ((s₁.call_spec _ (fun _ => true) hnoHead rfl).conseq (fun _ hs => hs)
        (fun _ _ hs => ⟨hs, fun _ he => by cases he⟩)
          fun _ _ hs => ⟨hs.1, fun _ _ => hs.2.2⟩)) fun w => ?_
  cases r with
  | ok a =>
    refine Fallible.Spec.bind (R := fun _ => Called noHead s₁)
      (Fallible.Spec.ofExcept (fun _ _ _ hs => hs.1) fun e he s hs =>
        Or.inr ⟨a, s₁, hs₁, hs.1, hs.2 e he⟩) fun _ => Fallible.Spec.pure _ fun s hs =>
          ⟨s₁, hs₁, hs⟩
  | error e => exact Fallible.Spec.fail _ fun s hs => Or.inl ⟨s₁, hs₁, hs.1⟩

/-- A read of the logits returns the logits held. -/
theorem readLogits_spec (s₀ : Session rt) :
    Fallible.Spec (fun s => s = s₀) readLogits
      (fun logits s => logits = s₀.logits ∧ Called noHead s₀ s)
      fun _ s => Called noHead s₀ s ∧ ¬ s.stream.Accepting := by
  have hnoHead (ok : Bool) : noHead (.downloadLogits, ok) := by
    intro he
    cases he
  refine Fallible.Spec.bind ((s₀.call_spec _ (fun _ => true) hnoHead rfl).conseq
    (fun _ hs => hs) (fun _ _ hs => hs) fun _ _ ⟨hs, hr⟩ => ⟨hs, hr.2⟩) fun _ =>
      Fallible.Spec.bind (R := fun s' s => s' = s ∧ Called noHead s₀ s)
        (Fallible.Spec.get fun s hs => ⟨rfl, hs⟩) fun s' => Fallible.Spec.pure _ ?_
  rintro s ⟨rfl, hs⟩
  exact ⟨hs.logits_eq, hs⟩

/-! ### One token -/

/-- The session after a decoded token. -/
structure Decoded (token : UInt32) (s₀ s : Session rt) : Prop where
  since : Stream.Since (fun _ => True) s₀.stream s.stream
  heads_eq : s.heads = s₀.heads + 1
  core_eq : s.core = rt.decoder.step token s₀.core

/-- The session after a failed decode: the token was rejected or interrupted, or only the report of
its completion failed. -/
inductive DecodeFailed (token : UInt32) (s₀ s : Session rt) : Prop
  | rejected (session : s = s₀) (token_ge : rt.config.vocabSize ≤ token.toNat ∨
      rt.config.maxPositionEmbeddings ≤ s₀.position)
  | interrupted (h : Interrupted s₀ s)
      (position_lt : s₀.position < rt.config.maxPositionEmbeddings)
  | unreported (h : Decoded token s₀ s) (refused : ¬ s.stream.Accepting)

theorem Called.decoded {token : UInt32} {s₀ s₁ s : Session rt} (hs : Called noHead s₁ s)
    (h : Decoded token s₀ s₁) : Decoded token s₀ s where
  since := h.since.trans (hs.since.mono fun _ _ => trivial)
  heads_eq := (heads_eq_of_since hs.since).trans h.heads_eq
  core_eq := hs.core_eq.trans h.core_eq

theorem Decoded.aligned {token : UInt32} {s₀ s : Session rt} (h : Decoded token s₀ s)
    (ha : s₀.Aligned) : s.Aligned := by
  unfold Aligned
  rw [h.core_eq]
  intro l hl
  rw [rt.decoder.length_rows_step token s₀.core hl, ha l hl]
  rfl

theorem Decoded.rows_prefix {token : UInt32} {s₀ s : Session rt} (h : Decoded token s₀ s)
    (l : ℕ) : s₀.cache.rows l <+: s.cache.rows l := by
  have hrows : s.cache.rows l = (rt.decoder.step token s₀.core).rows l := by
    rw [← h.core_eq]
    rfl
  obtain ⟨x, hx⟩ := rt.decoder.rows_step token s₀.core l
  rw [hrows, hx]
  split_ifs
  · exact List.prefix_append _ _
  · exact List.prefix_rfl

theorem DecodeFailed.rows_prefix {token : UInt32} {s₀ s : Session rt}
    (h : DecodeFailed token s₀ s) (l : ℕ) : s₀.cache.rows l <+: s.cache.rows l := by
  cases h with
  | rejected session _ => exact session ▸ List.prefix_rfl
  | interrupted h _ => exact h.rows_prefix l
  | unreported h _ => exact h.rows_prefix l

theorem DecodeFailed.aligned {token : UInt32} {s₀ s : Session rt} (h : DecodeFailed token s₀ s)
    (ha : s₀.Aligned) : s.Aligned ∨ s.stream.Refused midToken := by
  cases h with
  | rejected session _ => exact Or.inl (session ▸ ha)
  | interrupted h _ => exact h.aligned ha
  | unreported h _ => exact Or.inl (h.aligned ha)

theorem DecodeFailed.since {token : UInt32} {s₀ s : Session rt} (h : DecodeFailed token s₀ s) :
    Stream.Since (fun _ => True) s₀.stream s.stream := by
  cases h with
  | rejected session _ => exact session ▸ Stream.Since.refl _ _
  | interrupted h _ => exact h.since.mono fun _ _ => trivial
  | unreported h _ => exact h.since

/-- A failed decode has written the logits of its token or none. -/
theorem DecodeFailed.logits {token : UInt32} {s₀ s : Session rt} (h : DecodeFailed token s₀ s) :
    (s.heads = s₀.heads ∧ s.logits = s₀.logits) ∨
      (s.heads = s₀.heads + 1 ∧ s.logits = (rt.decoder.step token s₀.core).output) := by
  cases h with
  | rejected session _ => exact Or.inl (session ▸ ⟨rfl, rfl⟩)
  | interrupted h _ => exact Or.inl ⟨heads_eq_of_since h.since, h.logits_eq⟩
  | unreported h _ => exact Or.inr ⟨h.heads_eq, congrArg Decoder.State.output h.core_eq⟩

/-- A token of the vocabulary that fits an aligned session fails only by a refused call. -/
theorem DecodeFailed.not_accepting {token : UInt32} {s₀ s : Session rt}
    (h : DecodeFailed token s₀ s) (ha : s₀.Aligned)
    (htoken : token.toNat < rt.config.vocabSize)
    (hposition : s₀.position < rt.config.maxPositionEmbeddings) : ¬ s.stream.Accepting := by
  cases h with
  | rejected session token_ge => omega
  | interrupted h _ => exact h.not_accepting.resolve_right (not_not.2 (ha.room hposition))
  | unreported _ refused => exact refused

theorem validateToken_eq_ok_iff {token : UInt32} :
    validateToken rt token = .ok ⟨⟩ ↔ token.toNat < rt.config.vocabSize := by
  unfold validateToken
  split_ifs with h
  · exact iff_of_false id (Nat.not_lt.2 h)
  · exact iff_of_true rfl (Nat.not_le.1 h)

/-- The work of a decoded token. -/
private theorem decodeWork_spec (token : UInt32) (s₀ : Session rt) :
    Fallible.Spec (fun s => s = s₀) (do
        call .uploadToken
        Fallible.modify (writeToken token)
        enqueueCurrentToken)
      (fun _ => Decoded token s₀) fun _ => Interrupted s₀ := by
  have hnoHead (ok : Bool) : noHead (.uploadToken, ok) := by
    intro he
    cases he
  refine Fallible.Spec.bind ((s₀.call_spec _ (fun _ => true) hnoHead rfl).conseq
    (fun _ hs => hs) (fun _ _ hs => hs) fun _ s ⟨hs, hr⟩ => ?_) fun _ =>
      Fallible.Spec.bind (R := fun _ s => ∃ s₁, Called noHead s₀ s₁ ∧ s = s₁.writeToken token)
        (Fallible.Spec.modify _ fun s hs => ⟨s, hs, rfl⟩) fun _ =>
          Fallible.Spec.of_forall fun s₂ ⟨s₁, hs₁, hs₂⟩ => ?_
  · exact hs.interrupted ⟨Stream.Since.refl _ _, rfl, rfl, fun _ => List.prefix_rfl, Or.inl rfl,
      Or.inl (fun ha => hr.2 (hs.since.accepting ha))⟩
  · obtain ⟨stream, rfl, hs⟩ := hs₁
    subst hs₂
    refine (enqueueCurrentToken_spec _).conseq (fun _ hs => hs) (fun _ s he => ?_) fun _ s hi => ?_
    · exact ⟨(hs.mono fun _ _ => trivial).trans he.since,
        he.heads_eq.trans (congrArg (· + 1) (hs.accepted_eq fun hk => hk rfl)), he.core_eq⟩
    · exact ⟨hs.trans hi.since, hi.position_eq, hi.logits_eq, hi.rows_prefix, hi.rows_eq,
        hi.not_accepting⟩

/-- Decoding a token makes one step of the decoder and returns its logits, or fails in one of three
ways. -/
theorem decodeOne_spec (token : UInt32) (s₀ : Session rt) :
    Fallible.Spec (fun s => s = s₀) (decodeOne token)
      (fun logits s => Decoded token s₀ s ∧ logits = s.logits)
      fun _ s => DecodeFailed token s₀ s := by
  refine Fallible.Spec.bind (R := fun _ s => s = s₀ ∧ token.toNat < rt.config.vocabSize)
    (Fallible.Spec.ofExcept (fun u hu s hs => ⟨hs, validateToken_eq_ok_iff.1 hu⟩)
      fun e he s hs => .rejected hs (Or.inl ?_)) fun _ =>
        Fallible.Spec.bind (R := fun s' s => s' = s ∧ s = s₀ ∧ token.toNat < rt.config.vocabSize)
          (Fallible.Spec.get fun s hs => ⟨rfl, hs⟩) fun s' => Fallible.Spec.of_forall
            fun s₁ ⟨hs', hs₁, htoken⟩ => ?_
  · by_contra hlt
    rw [validateToken_eq_ok_iff.2 (Nat.not_le.1 hlt)] at he
    cases he
  rw [hs', hs₁]
  split_ifs with hfull
  · exact Fallible.Spec.fail _ fun s hs => .rejected hs (Or.inr hfull)
  · rw [← bind_assoc]
    refine Fallible.Spec.bind (R := fun _ => Decoded token s₀)
      ((attempt_finish_spec (decodeWork_spec token s₀)).conseq (fun _ hs => hs) ?_ ?_) fun _ =>
        Fallible.Spec.of_forall fun s₂ hs₂ => (s₂.readLogits_spec).conseq (fun _ hs => hs) ?_ ?_
    · rintro - s ⟨s₂, hs₂, hs⟩
      exact hs.decoded hs₂
    · rintro e s (⟨s₂, hs₂, hs⟩ | ⟨-, s₂, hs₂, hs, hr⟩)
      · exact .interrupted (hs.interrupted hs₂) (Nat.not_le.1 hfull)
      · exact .unreported (hs.decoded hs₂) hr
    · rintro logits s ⟨rfl, hs⟩
      exact ⟨hs.decoded hs₂, hs.logits_eq.symm⟩
    · rintro e s ⟨hs, hr⟩
      exact .unreported (hs.decoded hs₂) hr

/-! ### Rewinding -/

/-- The wait before a rewind. -/
def rewindSite : CallSite → Bool
  | .synchronize .rewind => true
  | _ => false

/-- A rewind cuts every layer and goes back to the position. It fails by a refused wait, or because
some layer holds fewer rows. -/
theorem rewindTo_spec (position : ℕ) (s₀ : Session rt) :
    Fallible.Spec (fun s => s = s₀) (rewindTo position)
      (fun _ s => Stream.Since noHead s₀.stream s.stream ∧ s.core = s₀.core.cut position ∧
        ∀ l < rt.config.numHiddenLayers, position ≤ s₀.cache.rowCount l)
      fun _ s => Called noHead s₀ s ∧ (s.Refused rewindSite ∨
        ∃ l < rt.config.numHiddenLayers, s₀.cache.rowCount l < position) := by
  have hnoHead (ok : Bool) : noHead (.synchronize .rewind, ok) := by
    intro he
    cases he
  refine Fallible.Spec.bind ((s₀.call_spec _ rewindSite hnoHead rfl).conseq
    (fun _ hs => hs) (fun _ _ hs => hs) fun _ s ⟨hs, hr⟩ => ⟨hs, Or.inl hr⟩) fun _ =>
      Fallible.Spec.of_forall fun s₁ hs₁ => ?_
  obtain ⟨stream, rfl, hs⟩ := hs₁
  refine Fallible.Spec.bind ((((s₀.withStream stream).cache.truncate_spec position).zoom
    (s₀.withStream stream)).conseq (fun s hs' => ⟨hs', hs' ▸ rfl⟩) (fun _ _ hs' => hs')
      fun _ s hs' => ?_) fun _ => Fallible.Spec.modify _ fun s hs' => ?_
  · obtain ⟨c, ⟨rfl, hshort⟩, rfl⟩ := hs'
    exact ⟨⟨stream, rfl, hs⟩, Or.inr hshort⟩
  · obtain ⟨c, ⟨hstream, hrows, hle⟩, rfl⟩ := hs'
    refine ⟨?_, Decoder.State.ext rfl (funext hrows) rfl, hle⟩
    show Stream.Since noHead s₀.stream c.stream
    rw [hstream]
    exact hs

/-- A reset forgets the rows and goes back to the start, unless its wait is refused. -/
theorem reset_spec (s₀ : Session rt) :
    Fallible.Spec (fun s => s = s₀) reset
      (fun _ s => Stream.Since noHead s₀.stream s.stream ∧ s.core = s₀.core.cut 0)
      fun _ s => Called noHead s₀ s := by
  have hnoHead (ok : Bool) : noHead (.synchronize .reset, ok) := by
    intro he
    cases he
  refine Fallible.Spec.bind ((s₀.call_spec _ (fun _ => true) hnoHead rfl).conseq
    (fun _ hs => hs) (fun _ _ hs => hs) fun _ s hs => hs.1) fun _ =>
      Fallible.Spec.modify _ fun s hs => ⟨hs.since, Decoder.State.ext rfl (funext fun l => ?_) ?_⟩
  · show s.cache.reset.rows l = (s₀.cache.rows l).take 0
    rw [KvCache.reset, KvCache.rows_fillLengths _ _ fun _ _ => Nat.zero_le _, hs.rows_eq]
  · exact hs.logits_eq

theorem aligned_of_cut_zero {s s₀ : Session rt} (h : s.core = s₀.core.cut 0) : s.Aligned := by
  unfold Aligned
  rw [h]
  intro l _
  show ((s₀.core.rows l).take 0).length = 0
  rw [List.take_zero, List.length_nil]

end Session

end NNIS
