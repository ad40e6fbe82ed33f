import NNIS.Cpu.Speculative

/-!
# The rows after the first mismatch

The verifier checks that all rows are finite and then looks no further than the first row whose
greedy token is not the scheduled one. So two arrays of logits that agree up to and including this
row are verified alike, up to a later row that is not finite.

## Main definitions

* `CpuGreedySpeculativeVerifierV1.FirstMismatch` — the first row whose greedy token is not that of
  the draft.

## Main results

* `agreement_append_of_lt` — choices after the first disagreement do not matter.
* `CpuGreedySpeculativeVerifierV1.verify_ignores_rows`.
-/

set_option autoImplicit false

namespace NNIS

/-! ### Choices after a disagreement -/

section Agreement

variable {T : Type} [DecidableEq T]

theorem agreement_append_of_lt {draft choices : List T} (rest : List T)
    (h : agreement draft choices < choices.length) :
    agreement draft (choices ++ rest) = agreement draft choices := by
  induction draft generalizing choices with
  | nil => rfl
  | cons t draft ih =>
    cases choices with
    | nil => exact absurd h (Nat.not_lt_zero _)
    | cons c choices =>
      rw [agreement_cons] at h
      rw [List.cons_append, agreement_cons, agreement_cons]
      by_cases htc : t = c
      · rw [if_pos htc, List.length_cons] at h
        rw [if_pos htc, if_pos htc, ih (Nat.lt_of_succ_lt_succ h)]
      · rw [if_neg htc, if_neg htc]

theorem speculated_append_of_lt {draft choices : List T} (rest : List T)
    (h : agreement draft choices < choices.length) :
    speculated draft (choices ++ rest) = speculated draft choices := by
  rw [speculated, agreement_append_of_lt rest h, List.getElem?_append_left h, speculated]

/-- The draft and the choices agree at most up to a place where they differ. -/
theorem agreement_le_of_ne {draft choices : List T} {k : ℕ} (hk : k < choices.length)
    (h : draft[k]? ≠ choices[k]?) : agreement draft choices ≤ k := by
  induction draft generalizing choices k with
  | nil => exact Nat.zero_le k
  | cons t draft ih =>
    cases choices with
    | nil => exact absurd hk (Nat.not_lt_zero _)
    | cons c choices =>
      rw [agreement_cons]
      split_ifs with htc
      · cases k with
        | zero =>
          rw [List.getElem?_cons_zero, List.getElem?_cons_zero, htc] at h
          exact absurd rfl h
        | succ k =>
          rw [List.getElem?_cons_succ, List.getElem?_cons_succ] at h
          exact Nat.succ_le_succ (ih (Nat.lt_of_succ_lt_succ hk) h)
      · exact Nat.zero_le k

end Agreement

/-! ### Successive rows -/

theorem length_chunksExact (n : ℕ) (values : List F32) :
    (chunksExact n values).length = values.length / n := by
  rw [chunksExact, List.length_map, List.length_range]

/-- The first rows are those of the first values. -/
theorem chunksExact_take {n k : ℕ} (hn : 0 < n) {values : List F32} (h : k * n ≤ values.length) :
    (chunksExact n values).take k = chunksExact n (values.take (k * n)) := by
  have hk : k ≤ values.length / n := (Nat.le_div_iff_mul_le hn).2 h
  have hlen : (values.take (k * n)).length / n = k := by
    rw [List.length_take, Nat.min_eq_left h, Nat.mul_div_cancel _ hn]
  rw [chunksExact, chunksExact, hlen, ← List.map_take, List.take_range, Nat.min_eq_left hk]
  refine List.map_congr_left fun row hrow => ?_
  have hle : (row + 1) * n ≤ k * n := Nat.mul_le_mul_right n (List.mem_range.1 hrow)
  rw [Nat.succ_mul] at hle
  rw [List.drop_take, List.take_take, Nat.min_eq_left (by omega)]

/-- The values of the later rows are among the later values. -/
theorem mem_of_mem_drop_chunksExact {n k : ℕ} {values row : List F32}
    (hrow : row ∈ (chunksExact n values).drop k) {x : F32} (hx : x ∈ row) :
    x ∈ values.drop (k * n) := by
  obtain ⟨i, hi, rfl⟩ := List.getElem_of_mem hrow
  have hle : k * n ≤ (k + i) * n := Nat.mul_le_mul_right n (Nat.le_add_right k i)
  simp only [chunksExact, List.getElem_drop, List.getElem_map, List.getElem_range] at hx
  have hmem := List.mem_of_mem_take hx
  rw [← Nat.add_sub_of_le hle, ← List.drop_drop] at hmem
  exact List.mem_of_mem_drop hmem

theorem targetTokensFrom_append (first : ℕ) (rows rest : List (List F32)) :
    targetTokensFrom first (rows ++ rest) = (targetTokensFrom first rows).bind fun tokens =>
      (targetTokensFrom (first + rows.length) rest).map (tokens ++ ·) := by
  induction rows generalizing first with
  | nil =>
    rw [List.nil_append, List.length_nil, Nat.add_zero]
    cases targetTokensFrom first rest <;> rfl
  | cons row rows ih =>
    have hlength : first + (row :: rows).length = first + 1 + rows.length := by
      rw [List.length_cons, Nat.add_assoc, Nat.add_comm 1]
    rw [List.cons_append, targetTokensFrom, targetTokensFrom, hlength]
    cases greedyArgmax row with
    | error column => rfl
    | ok token =>
      dsimp only
      rw [ih]
      cases targetTokensFrom (first + 1) rows with
      | error e => rfl
      | ok tokens => cases targetTokensFrom (first + 1 + rows.length) rest <;> rfl

theorem length_of_targetTokensFrom {first : ℕ} {rows : List (List F32)} {tokens : List UInt32}
    (h : targetTokensFrom first rows = .ok tokens) : tokens.length = rows.length := by
  induction rows generalizing first tokens with
  | nil =>
    cases h
    rfl
  | cons row rows ih =>
    rw [targetTokensFrom] at h
    cases hrow : greedyArgmax row with
    | error column =>
      rw [hrow] at h
      cases h
    | ok token =>
      rw [hrow] at h
      cases hrest : targetTokensFrom (first + 1) rows with
      | error e =>
        rw [hrest] at h
        cases h
      | ok rest =>
        rw [hrest] at h
        cases h
        rw [List.length_cons, List.length_cons, ih hrest]

/-- Each token is the greedy one of its row. -/
theorem getElem?_of_targetTokensFrom {first : ℕ} {rows : List (List F32)} {tokens : List UInt32}
    (h : targetTokensFrom first rows = .ok tokens) (k : ℕ) :
    tokens[k]? = rows[k]?.bind fun row => (greedyArgmax row).toOption := by
  induction rows generalizing first tokens k with
  | nil =>
    cases h
    rfl
  | cons row rows ih =>
    rw [targetTokensFrom] at h
    cases hrow : greedyArgmax row with
    | error column =>
      rw [hrow] at h
      cases h
    | ok token =>
      rw [hrow] at h
      cases hrest : targetTokensFrom (first + 1) rows with
      | error e =>
        rw [hrest] at h
        cases h
      | ok rest =>
        rw [hrest] at h
        cases h
        cases k with
        | zero =>
          rw [List.getElem?_cons_zero, List.getElem?_cons_zero, Option.bind_some, hrow]
          rfl
        | succ k =>
          rw [List.getElem?_cons_succ, List.getElem?_cons_succ]
          exact ih hrest k

/-- Rows are refused for a value that is not finite. -/
theorem targetTokensFrom_error {first : ℕ} {rows : List (List F32)} {e : CpuSpeculativeError}
    (h : targetTokensFrom first rows = .error e) :
    ∃ row column, first ≤ row ∧ e = .nonFiniteLogit row column := by
  induction rows generalizing first with
  | nil => cases h
  | cons row rows ih =>
    rw [targetTokensFrom] at h
    cases hrow : greedyArgmax row with
    | error column =>
      rw [hrow] at h
      exact ⟨first, column, Nat.le_refl _, (Except.error.inj h).symm⟩
    | ok token =>
      rw [hrow] at h
      cases hrest : targetTokensFrom (first + 1) rows with
      | error e' =>
        rw [hrest] at h
        obtain rfl := Except.error.inj h
        obtain ⟨row', column, hle, rfl⟩ := ih hrest
        exact ⟨row', column, Nat.le_of_succ_le hle, rfl⟩
      | ok rest =>
        rw [hrest] at h
        cases h

namespace CpuGreedySpeculativeVerifierV1

variable (verifier : CpuGreedySpeculativeVerifierV1) (draft : SpeculativeDraftV1)
  (schedule : ConfidenceScheduleV1)

/-- The greedy token of a row, when the row is finite. -/
def greedyRow (logits : List F32) (row : ℕ) : Option UInt32 :=
  (greedyArgmax ((logits.drop (row * verifier.vocabSize)).take verifier.vocabSize)).toOption

/-- The first scheduled row whose greedy token is not that of the draft. -/
structure FirstMismatch (logits : List F32) (row : ℕ) : Prop where
  scheduled : row < schedule.scheduledLen draft
  differs : verifier.greedyRow logits row ≠ draft.tokens[row]?
  agrees : ∀ earlier < row, verifier.greedyRow logits earlier = draft.tokens[earlier]?

variable {verifier draft schedule}

/-- The rows up to the first mismatch decide the outcome, and the ones after it only whether they
are finite. -/
private theorem verify_of_firstMismatch {logits : List F32} {row : ℕ}
    (htokens : draft.tokens.findIdx?
      (fun token => decide (verifier.vocabSize ≤ token.toNat)) = none)
    (hlength : logits.length = (schedule.scheduledLen draft + 1) * verifier.vocabSize)
    (h : verifier.FirstMismatch draft schedule logits row) :
    verifier.verify draft schedule logits =
      (targetTokensFrom 0 ((chunksExact verifier.vocabSize logits).take (row + 1))).bind
        fun targets => (targetTokensFrom (row + 1)
          ((chunksExact verifier.vocabSize logits).drop (row + 1))).bind
            fun _ => .ok (.ofTargets draft schedule targets) := by
  have hpos := verifier.vocabSize_pos
  set rows := chunksExact verifier.vocabSize logits with hrows
  have hcount : rows.length = schedule.scheduledLen draft + 1 := by
    rw [hrows, length_chunksExact, hlength, Nat.mul_div_cancel _ hpos]
  have hscheduled := h.scheduled
  have htake : (rows.take (row + 1)).length = row + 1 := by
    rw [List.length_take, Nat.min_eq_left (by omega)]
  rw [verify_of_targets verifier draft schedule logits htokens hlength, ← hrows]
  conv_lhs => rw [← List.take_append_drop (row + 1) rows, targetTokensFrom_append, htake,
    Nat.zero_add]
  cases htargets : targetTokensFrom 0 (rows.take (row + 1)) with
  | error e => rfl
  | ok targets =>
    have hlengthTargets : targets.length = row + 1 :=
      (length_of_targetTokensFrom htargets).trans htake
    -- The draft and the targets differ at the row.
    have hrow : rows[row]? =
        some ((logits.drop (row * verifier.vocabSize)).take verifier.vocabSize) := by
      have hlt : row < logits.length / verifier.vocabSize := by
        rw [← length_chunksExact, ← hrows, hcount]
        omega
      rw [hrows, chunksExact, List.getElem?_map, List.getElem?_range hlt, Option.map_some]
    have htarget : targets[row]? = verifier.greedyRow logits row := by
      rw [getElem?_of_targetTokensFrom htargets, List.getElem?_take_of_lt (Nat.lt_succ_self row),
        hrow, Option.bind_some, greedyRow]
    have hdraft : (schedule.scheduled draft)[row]? = draft.tokens[row]? := by
      rw [ConfidenceScheduleV1.scheduled, List.getElem?_take_of_lt hscheduled]
    have hdiffers : (schedule.scheduled draft)[row]? ≠ targets[row]? := by
      rw [hdraft, htarget]
      exact h.differs.symm
    have hagreement : agreement (schedule.scheduled draft) targets < targets.length :=
      Nat.lt_of_le_of_lt (agreement_le_of_ne (by omega) hdiffers) (by omega)
    cases hrest : targetTokensFrom (row + 1) (rows.drop (row + 1)) with
    | error e => rfl
    | ok rest =>
      have hlengthAll : (targets ++ rest).length = schedule.scheduledLen draft + 1 := by
        rw [List.length_append, hlengthTargets, length_of_targetTokensFrom hrest, List.length_drop,
          hcount]
        omega
      have hverify := verifyScheduledDraft_eq draft schedule hlengthAll
      have hsame : SpeculativeVerificationV1.ofTargets draft schedule (targets ++ rest) =
          .ofTargets draft schedule targets := by
        simp only [SpeculativeVerificationV1.ofTargets, agreement_append_of_lt rest hagreement,
          speculated_append_of_lt rest hagreement]
      simp only [Except.map, Except.bind, hverify, hsame]

theorem greedyRow_congr {left right : List F32} {row last : ℕ} (hrow : row ≤ last)
    (hagree : left.take ((last + 1) * verifier.vocabSize) =
      right.take ((last + 1) * verifier.vocabSize)) :
    verifier.greedyRow left row = verifier.greedyRow right row := by
  have hle : (row + 1) * verifier.vocabSize ≤ (last + 1) * verifier.vocabSize :=
    Nat.mul_le_mul_right _ (by omega)
  rw [Nat.succ_mul] at hle
  have hcut : ∀ logits : List F32,
    (logits.drop (row * verifier.vocabSize)).take verifier.vocabSize =
      ((logits.take ((last + 1) * verifier.vocabSize)).drop (row * verifier.vocabSize)).take
        verifier.vocabSize := by
    intro logits
    rw [List.drop_take, List.take_take, Nat.min_eq_left (by omega)]
  rw [greedyRow, greedyRow, hcut left, hcut right, hagree]

theorem FirstMismatch.congr {left right : List F32} {row : ℕ}
    (h : verifier.FirstMismatch draft schedule left row)
    (hagree : left.take ((row + 1) * verifier.vocabSize) =
      right.take ((row + 1) * verifier.vocabSize)) :
    verifier.FirstMismatch draft schedule right row where
  scheduled := h.scheduled
  differs := by
    rw [← greedyRow_congr (Nat.le_refl row) hagree]
    exact h.differs
  agrees earlier hearlier := by
    rw [← greedyRow_congr (Nat.le_of_lt hearlier) hagree]
    exact h.agrees earlier hearlier

/-- Finite rows after the first mismatch are accepted. -/
private theorem targetTokensFrom_later {logits : List F32} {row : ℕ}
    (hfinite : ∀ x ∈ logits.drop ((row + 1) * verifier.vocabSize), x.isFinite = true) :
    ∃ rest, targetTokensFrom (row + 1)
      ((chunksExact verifier.vocabSize logits).drop (row + 1)) = .ok rest := by
  refine ⟨_, targetTokensFrom_eq _ _ fun r hr => ⟨?_, fun x hx => ?_⟩⟩
  · rintro rfl
    have hlength := length_of_mem_chunksExact (List.mem_of_mem_drop hr)
    exact absurd hlength (Nat.ne_of_lt verifier.vocabSize_pos)
  · exact hfinite x (mem_of_mem_drop_chunksExact hr hx)

/-- Two arrays of logits of the required length that agree on the rows up to and including the first
one whose greedy token is not that of the draft: when the rows after it are finite in both the
results are the same, when both are accepted the outcomes are the same, and when the results differ
one of them is the refusal of a later row that is not finite. -/
theorem verify_ignores_rows (verifier : CpuGreedySpeculativeVerifierV1) (draft : SpeculativeDraftV1)
    (schedule : ConfidenceScheduleV1) (left right : List F32) (row : ℕ)
    (hleft : left.length = (schedule.scheduledLen draft + 1) * verifier.vocabSize)
    (hright : right.length = (schedule.scheduledLen draft + 1) * verifier.vocabSize)
    (hmismatch : verifier.FirstMismatch draft schedule left row)
    (hagree : left.take ((row + 1) * verifier.vocabSize) =
      right.take ((row + 1) * verifier.vocabSize)) :
    ((∀ x ∈ left.drop ((row + 1) * verifier.vocabSize), x.isFinite = true) →
      (∀ x ∈ right.drop ((row + 1) * verifier.vocabSize), x.isFinite = true) →
        verifier.verify draft schedule left = verifier.verify draft schedule right) ∧
    (∀ outcome outcome', verifier.verify draft schedule left = .ok outcome →
      verifier.verify draft schedule right = .ok outcome' → outcome = outcome') ∧
    (verifier.verify draft schedule left ≠ verifier.verify draft schedule right →
      ∃ later column, row < later ∧
        (verifier.verify draft schedule left = .error (.nonFiniteLogit later column) ∨
          verifier.verify draft schedule right = .error (.nonFiniteLogit later column))) := by
  cases htokens : draft.tokens.findIdx?
      (fun token => decide (verifier.vocabSize ≤ token.toNat)) with
  | some index =>
    have hsame : verifier.verify draft schedule left = verifier.verify draft schedule right := by
      rw [verify_of_token verifier draft schedule left htokens,
        verify_of_token verifier draft schedule right htokens]
    exact ⟨fun _ _ => hsame, fun outcome outcome' h h' =>
      Except.ok.inj (h.symm.trans (hsame.trans h')), fun hne => absurd hsame hne⟩
  | none =>
    have hcut : (row + 1) * verifier.vocabSize ≤
        (schedule.scheduledLen draft + 1) * verifier.vocabSize :=
      Nat.mul_le_mul_right _ (Nat.succ_le_succ (Nat.le_of_lt hmismatch.scheduled))
    have hrows : (chunksExact verifier.vocabSize left).take (row + 1) =
        (chunksExact verifier.vocabSize right).take (row + 1) := by
      rw [chunksExact_take verifier.vocabSize_pos (hleft ▸ hcut),
        chunksExact_take verifier.vocabSize_pos (hright ▸ hcut), hagree]
    rw [verify_of_firstMismatch htokens hleft hmismatch,
      verify_of_firstMismatch htokens hright (hmismatch.congr hagree), hrows]
    cases targetTokensFrom 0 ((chunksExact verifier.vocabSize right).take (row + 1)) with
    | error e => exact ⟨fun _ _ => rfl, fun _ _ h => (nomatch h), fun h => absurd rfl h⟩
    | ok targets =>
      refine ⟨fun hfinite hfinite' => ?_, fun outcome outcome' h h' => ?_, fun hne => ?_⟩
      · obtain ⟨rest, hrest⟩ := targetTokensFrom_later hfinite
        obtain ⟨rest', hrest'⟩ := targetTokensFrom_later hfinite'
        rw [hrest, hrest']
        rfl
      · cases hrest : targetTokensFrom (row + 1)
          ((chunksExact verifier.vocabSize left).drop (row + 1)) with
        | error e =>
          rw [hrest] at h
          exact nomatch h
        | ok rest =>
          cases hrest' : targetTokensFrom (row + 1)
            ((chunksExact verifier.vocabSize right).drop (row + 1)) with
          | error e =>
            rw [hrest'] at h'
            exact nomatch h'
          | ok rest' =>
            rw [hrest] at h
            rw [hrest'] at h'
            exact (Except.ok.inj h).symm.trans (Except.ok.inj h')
      · cases hrest : targetTokensFrom (row + 1)
          ((chunksExact verifier.vocabSize left).drop (row + 1)) with
        | error e =>
          obtain ⟨later, column, hle, rfl⟩ := targetTokensFrom_error hrest
          exact ⟨later, column, hle, Or.inl rfl⟩
        | ok rest =>
          cases hrest' : targetTokensFrom (row + 1)
            ((chunksExact verifier.vocabSize right).drop (row + 1)) with
          | error e =>
            obtain ⟨later, column, hle, rfl⟩ := targetTokensFrom_error hrest'
            exact ⟨later, column, hle, Or.inr rfl⟩
          | ok rest' =>
            rw [hrest, hrest'] at hne
            exact absurd rfl hne

/-- A vocabulary of two tokens. -/
private def twoTokens : CpuGreedySpeculativeVerifierV1 := ⟨2, by decide, by decide⟩

/-- A draft of the token one. -/
def singleDraft : SpeculativeDraftV1 where
  tokens := [1]
  confidences := [.ofBits 0x3F800000]
  tokens_ne_nil := List.cons_ne_nil _ _
  length_tokens_le := by decide
  length_confidences := rfl
  confidences_inUnitRange := by decide

/-- A schedule that sends one token to verification. -/
def singleSchedule : ConfidenceScheduleV1 where
  minConfidence := .zero false
  maxVerifyTokens := 1
  minConfidence_inUnitRange := by decide
  maxVerifyTokens_pos := by decide
  maxVerifyTokens_lt := by decide

/-- A row whose greedy token is zero, and a row of two values. -/
private def afterMismatch (x y : F32) : List F32 := [.ofBits 0x3F800000, .zero false, x, y]

private theorem firstMismatch_afterMismatch (x y : F32) :
    twoTokens.FirstMismatch singleDraft singleSchedule (afterMismatch x y) 0 where
  scheduled := by decide
  differs := by
    have hgreedy : (greedyArgmax [.ofBits 0x3F800000, .zero false]).toOption = some 0 := by
      decide +kernel
    have hrow : twoTokens.greedyRow (afterMismatch x y) 0 =
        (greedyArgmax [.ofBits 0x3F800000, .zero false]).toOption := rfl
    rw [hrow, hgreedy]
    decide
  agrees earlier h := absurd h (Nat.not_lt_zero _)

/-- Two verifications that differ after the mismatch, in finite rows. -/
theorem verify_ignores_rows_afterMismatch :
    twoTokens.verify singleDraft singleSchedule (afterMismatch (.zero false) (.zero false)) =
      twoTokens.verify singleDraft singleSchedule
        (afterMismatch (.zero false) (.ofBits 0x3F800000)) :=
  (verify_ignores_rows twoTokens singleDraft singleSchedule _ _ 0 rfl rfl
    (firstMismatch_afterMismatch _ _) rfl).1 (by decide) (by decide)

private theorem verify_finite_isOk : (twoTokens.verify singleDraft singleSchedule
    (afterMismatch (.zero false) (.zero false))).isOk = true := by
  decide +kernel

private theorem verify_notANumber_isOk : (twoTokens.verify singleDraft singleSchedule
    (afterMismatch .notANumber (.zero false))).isOk = false := by
  decide +kernel

/-- A row after the mismatch that is not finite is refused. -/
theorem verify_ne_afterMismatch :
    twoTokens.FirstMismatch singleDraft singleSchedule
        (afterMismatch (.zero false) (.zero false)) 0 ∧
      (afterMismatch (.zero false) (.zero false)).take ((0 + 1) * twoTokens.vocabSize) =
        (afterMismatch .notANumber (.zero false)).take ((0 + 1) * twoTokens.vocabSize) ∧
      twoTokens.verify singleDraft singleSchedule
          (afterMismatch (.zero false) (.zero false)) ≠
        twoTokens.verify singleDraft singleSchedule
          (afterMismatch .notANumber (.zero false)) :=
  ⟨firstMismatch_afterMismatch _ _, rfl, fun h =>
    nomatch verify_finite_isOk.symm.trans ((congrArg Except.isOk h).trans verify_notANumber_isOk)⟩

end CpuGreedySpeculativeVerifierV1

end NNIS
