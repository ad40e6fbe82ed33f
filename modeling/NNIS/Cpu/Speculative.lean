import NNIS.Core.SpeculativeVerify

/-!
# Greedy verification of speculative drafts on the host

The verifier of `nnis-cpu/src/speculative.rs` turns one row of target logits per scheduled position
into the target's greedy token (finite values only, lowest index on ties) and applies
`verifyScheduledDraft`.

## Main definitions

* `CpuGreedySpeculativeVerifierV1`, `CpuGreedySpeculativeVerifierV1.verify`.
* `greedyArgmax` — the scan of one row.
* `lowestArgmax` — the first index whose value no other value exceeds.

## Main results

* `greedyArgmax_eq` — on a finite row the scan finds the lowest argmax.
* `CpuGreedySpeculativeVerifierV1.verify_eq` — verification of finite rows.
-/

set_option autoImplicit false

namespace NNIS

/-- Fail-closed CPU speculative-verification errors. -/
inductive CpuSpeculativeError
  | contract (error : SpeculativeError)
  | zeroVocabulary
  | tokenOutOfVocabulary (index : ℕ) (token : UInt32)
  | logitsLengthMismatch (expected actual : ℕ)
  | nonFiniteLogit (row column : ℕ)
  | hostIndexOverflow
  deriving DecidableEq

/-- The text of an error. -/
def CpuSpeculativeError.text : CpuSpeculativeError → String
  | contract error => s!"speculative contract: {error.text}"
  | zeroVocabulary => "verifier vocabulary size must be non-zero"
  | tokenOutOfVocabulary index token => s!"draft token {index} ({token}) is outside the vocabulary"
  | logitsLengthMismatch expected actual =>
    s!"target logits have {actual} values, expected {expected}"
  | nonFiniteLogit row column => s!"target logit at row {row} column {column} is not finite"
  | hostIndexOverflow => "logits size does not fit host indexing"

/-! ### Greedy argmax -/

/-- The scan of `greedyArgmax` from an index on, with the best index so far. -/
def greedyArgmaxFrom (logits : List F32) : (index best : ℕ) → List F32 → Except ℕ ℕ
  | _, best, [] => .ok best
  | index, best, value :: rest =>
    if !value.isFinite then .error index
    else if (logits[best]?.getD default).lt value then
      greedyArgmaxFrom logits (index + 1) index rest
    else greedyArgmaxFrom logits (index + 1) best rest

/-- Deterministic greedy argmax: finite values only, lowest index wins ties. The error is the index
of the first non-finite value. -/
def greedyArgmax (logits : List F32) : Except ℕ UInt32 :=
  (greedyArgmaxFrom logits 0 0 logits).map UInt32.ofNat

/-- The first index whose value no other value exceeds. -/
def lowestArgmax (logits : List F32) : UInt32 :=
  UInt32.ofNat (logits.findIdx fun x => logits.all fun y => !x.lt y)

/-- The scan keeps the lowest argmax of the values before the index. -/
private theorem greedyArgmaxFrom_eq {logits : List F32}
    (hfin : ∀ x ∈ logits, x.isFinite = true) (seen rest : List F32) (hseen : seen ++ rest = logits)
    (best : ℕ) (hbest : best < logits.length) (hstart : best < seen.length ∨ best = 0)
    (hmax : ∀ j, (hj : j < logits.length) → j < seen.length →
      (logits[j]).key ≤ (logits[best]).key)
    (hlow : ∀ j, (hj : j < best) → (logits[j]).key < (logits[best]).key) :
    ∃ i, ∃ hi : i < logits.length, greedyArgmaxFrom logits seen.length best rest = .ok i ∧
      (∀ j, (hj : j < logits.length) → (logits[j]).key ≤ (logits[i]).key) ∧
      ∀ j, (hj : j < i) → (logits[j]).key < (logits[i]).key := by
  induction rest generalizing seen best with
  | nil =>
    have hlen : seen.length = logits.length := by rw [← hseen, List.append_nil]
    exact ⟨best, hbest, rfl, fun j hj => hmax j hj (by omega), hlow⟩
  | cons value rest ih =>
    have hlen : seen.length < logits.length := by
      rw [← hseen, List.length_append, List.length_cons]
      omega
    have hval : logits[seen.length] = value := by
      simp only [← hseen, List.getElem_append_right (Nat.le_refl _), Nat.sub_self,
        List.getElem_cons_zero]
    have hvfin : value.isFinite = true := by
      rw [← hval]
      exact hfin _ (List.getElem_mem hlen)
    have hbfin : (logits[best]).isFinite = true := hfin _ (List.getElem_mem hbest)
    have hseen' : (seen ++ [value]) ++ rest = logits := by
      rw [List.append_assoc, List.singleton_append, hseen]
    have hlen' : (seen ++ [value]).length = seen.length + 1 := by
      rw [List.length_append, List.length_singleton]
    rw [greedyArgmaxFrom, hvfin, Bool.not_true, if_neg Bool.false_ne_true,
      List.getElem?_eq_getElem hbest, Option.getD_some]
    by_cases hlt : (logits[best]).lt value = true
    · have hkey : (logits[best]).key < value.key := (Binary.lt_iff_key_lt hbfin hvfin).1 hlt
      have hnew : ∀ j, (hj : j < logits.length) → j < seen.length →
          (logits[j]).key < (logits[seen.length]).key := by
        intro j hj hjs
        rw [hval]
        exact (hmax j hj hjs).trans_lt hkey
      rw [if_pos hlt]
      refine hlen' ▸ ih (seen ++ [value]) hseen' seen.length hlen (Or.inl (by omega)) ?_ ?_
      · intro j hj hjs
        rcases Nat.lt_or_eq_of_le (Nat.le_of_lt_succ (hlen' ▸ hjs)) with hlt' | rfl
        · exact (hnew j hj hlt').le
        · exact le_refl _
      · intro j hj
        exact hnew j (by omega) hj
    · have hkey : value.key ≤ (logits[best]).key := by
        rw [Binary.lt_iff_key_lt hbfin hvfin] at hlt
        exact not_lt.1 hlt
      rw [if_neg hlt]
      refine hlen' ▸ ih (seen ++ [value]) hseen' best hbest ?_ ?_ hlow
      · rcases hstart with h | h
        · exact Or.inl (by omega)
        · exact Or.inr h
      · intro j hj hjs
        rcases Nat.lt_or_eq_of_le (Nat.le_of_lt_succ (hlen' ▸ hjs)) with hlt' | rfl
        · exact hmax j hj hlt'
        · rw [hval]
          exact hkey

/-- On a finite row the scan finds the lowest argmax. -/
theorem greedyArgmax_eq {logits : List F32} (hne : logits ≠ [])
    (hfin : ∀ x ∈ logits, x.isFinite = true) : greedyArgmax logits = .ok (lowestArgmax logits) := by
  have hpos : 0 < logits.length := List.length_pos_of_ne_nil hne
  obtain ⟨i, hi, hrun, hmax, hlow⟩ := greedyArgmaxFrom_eq hfin [] logits rfl 0 hpos (Or.inr rfl)
    (fun _ _ hj => absurd hj (Nat.not_lt_zero _)) fun _ hj => absurd hj (Nat.not_lt_zero _)
  have hidx : logits.findIdx (fun x => logits.all fun y => !x.lt y) = i := by
    rw [List.findIdx_eq hi]
    have hifin := hfin _ (List.getElem_mem hi)
    refine ⟨?_, fun j hj => ?_⟩
    · rw [List.all_eq_true]
      intro y hy
      obtain ⟨j, hj, rfl⟩ := List.getElem_of_mem hy
      rw [Bool.not_eq_true', ← Bool.not_eq_true, Binary.lt_iff_key_lt hifin (hfin _ hy)]
      exact not_lt.2 (hmax j hj)
    · have hjfin := hfin _ (List.getElem_mem (hj.trans hi))
      rw [List.all_eq_false]
      refine ⟨logits[i], List.getElem_mem hi, ?_⟩
      rw [Bool.not_eq_true', Bool.not_eq_false, Binary.lt_iff_key_lt hjfin hifin]
      exact hlow j hj
  rw [List.length_nil] at hrun
  rw [greedyArgmax, hrun, lowestArgmax, hidx]
  rfl

/-! ### The verifier -/

/-- Successive rows of `n` values; an incomplete last row is dropped. -/
def chunksExact (n : ℕ) (values : List F32) : List (List F32) :=
  (List.range (values.length / n)).map fun row => (values.drop (row * n)).take n

/-- The greedy tokens of successive rows, the first one numbered `row`. -/
def targetTokensFrom : (row : ℕ) → List (List F32) → Except CpuSpeculativeError (List UInt32)
  | _, [] => .ok []
  | row, logits :: rest =>
    match greedyArgmax logits with
    | .error column => .error (.nonFiniteLogit row column)
    | .ok token => (targetTokensFrom (row + 1) rest).map (token :: ·)

/-- Greedy-semantics CPU reference verifier for one vocabulary size. -/
structure CpuGreedySpeculativeVerifierV1 where
  vocabSize : ℕ
  vocabSize_pos : 0 < vocabSize
  vocabSize_lt : vocabSize < 2 ^ 32

namespace CpuGreedySpeculativeVerifierV1

/-- Construct a verifier for a non-zero vocabulary size. -/
def new (vocabSize : ℕ) (h : vocabSize < 2 ^ 32) :
    Except CpuSpeculativeError CpuGreedySpeculativeVerifierV1 :=
  if h₀ : vocabSize = 0 then .error .zeroVocabulary
  else .ok ⟨vocabSize, Nat.pos_of_ne_zero h₀, h⟩

/-- Verify one draft step from row-major target logits. -/
def verify (verifier : CpuGreedySpeculativeVerifierV1) (draft : SpeculativeDraftV1)
    (schedule : ConfidenceScheduleV1) (targetLogits : List F32) :
    Except CpuSpeculativeError SpeculativeVerificationV1 :=
  match draft.tokens.findIdx? fun token => decide (verifier.vocabSize ≤ token.toNat) with
  | some index => .error (.tokenOutOfVocabulary index (draft.tokens.getD index 0))
  | none =>
    let rows := schedule.scheduledLen draft + 1
    match checkedMul rows verifier.vocabSize with
    | none => .error .hostIndexOverflow
    | some expected =>
      if targetLogits.length ≠ expected then
        .error (.logitsLengthMismatch expected targetLogits.length)
      else
        match targetTokensFrom 0 (chunksExact verifier.vocabSize targetLogits) with
        | .error error => .error error
        | .ok targetTokens =>
          match verifyScheduledDraft draft schedule targetTokens with
          | .error error => .error (.contract error)
          | .ok outcome => .ok outcome

variable (verifier : CpuGreedySpeculativeVerifierV1) (draft : SpeculativeDraftV1)
  (schedule : ConfidenceScheduleV1) (targetLogits : List F32)

/-- A draft with a token outside the vocabulary. -/
theorem verify_of_token {index : ℕ} (h : draft.tokens.findIdx?
    (fun token => decide (verifier.vocabSize ≤ token.toNat)) = some index) :
    verifier.verify draft schedule targetLogits =
      .error (.tokenOutOfVocabulary index (draft.tokens.getD index 0)) := by
  simp only [verify, h]

/-- The logits that a step needs fit host indexing. -/
theorem expected_lt :
    (schedule.scheduledLen draft + 1) * verifier.vocabSize < wordLimit := by
  have hscheduled : schedule.scheduledLen draft ≤ 1024 := schedule.scheduledLen_le_max draft
  calc (schedule.scheduledLen draft + 1) * verifier.vocabSize
      ≤ 1025 * 2 ^ 32 := Nat.mul_le_mul (by omega) verifier.vocabSize_lt.le
    _ < wordLimit := by decide

/-- Logits of another length. -/
theorem verify_of_length (htokens : draft.tokens.findIdx?
    (fun token => decide (verifier.vocabSize ≤ token.toNat)) = none)
    (h : targetLogits.length ≠ (schedule.scheduledLen draft + 1) * verifier.vocabSize) :
    verifier.verify draft schedule targetLogits =
      .error (.logitsLengthMismatch ((schedule.scheduledLen draft + 1) * verifier.vocabSize)
        targetLogits.length) := by
  simp only [verify, htokens, checkedMul_of_lt (expected_lt verifier draft schedule)]
  exact if_pos h

/-- Logits of the expected length. -/
theorem verify_of_targets (htokens : draft.tokens.findIdx?
    (fun token => decide (verifier.vocabSize ≤ token.toNat)) = none)
    (h : targetLogits.length = (schedule.scheduledLen draft + 1) * verifier.vocabSize) :
    verifier.verify draft schedule targetLogits =
      match targetTokensFrom 0 (chunksExact verifier.vocabSize targetLogits) with
      | .error error => .error error
      | .ok targetTokens =>
        match verifyScheduledDraft draft schedule targetTokens with
        | .error error => .error (.contract error)
        | .ok outcome => .ok outcome := by
  simp only [verify, htokens, checkedMul_of_lt (expected_lt verifier draft schedule)]
  exact if_neg (not_not_intro h)

end CpuGreedySpeculativeVerifierV1

/-! ### Verification of finite rows -/

/-- Rows laid out one after the other are recovered by chunking. -/
theorem chunksExact_flatten {n : ℕ} (hn : 0 < n) (rows : List (List F32))
    (h : ∀ row ∈ rows, row.length = n) : chunksExact n rows.flatten = rows := by
  have hlen : rows.flatten.length = rows.length * n := by
    rw [List.length_flatten, List.map_congr_left h, List.map_const', List.sum_replicate_nat]
  rw [chunksExact, hlen, Nat.mul_div_cancel _ hn]
  refine List.ext_getElem (by rw [List.length_map, List.length_range]) fun i h₁ h₂ => ?_
  rw [List.getElem_map, List.getElem_range]
  clear h₁ hlen
  induction rows generalizing i with
  | nil => exact absurd h₂ (Nat.not_lt_zero _)
  | cons row rows ih =>
    have hrow : row.length = n := h row List.mem_cons_self
    cases i with
    | zero =>
      rw [Nat.zero_mul, List.drop_zero, List.flatten_cons, ← hrow, List.take_left,
        List.getElem_cons_zero]
    | succ i =>
      have hdrop : (i + 1) * n = row.length + i * n := by rw [hrow, Nat.succ_mul, Nat.add_comm]
      rw [List.flatten_cons, hdrop, ← List.drop_drop, List.drop_left, List.getElem_cons_succ]
      exact ih (fun r hr => h r (List.mem_cons_of_mem _ hr)) i _

/-- The greedy tokens of finite rows are their lowest argmaxes. -/
theorem targetTokensFrom_eq (rows : List (List F32)) (first : ℕ)
    (h : ∀ row ∈ rows, row ≠ [] ∧ ∀ x ∈ row, x.isFinite = true) :
    targetTokensFrom first rows = .ok (rows.map lowestArgmax) := by
  induction rows generalizing first with
  | nil => rfl
  | cons row rows ih =>
    obtain ⟨hne, hfin⟩ := h row List.mem_cons_self
    rw [targetTokensFrom, greedyArgmax_eq hne hfin,
      ih (first + 1) fun r hr => h r (List.mem_cons_of_mem _ hr)]
    rfl

/-- On finite rows, one per scheduled position and one more, the draft is speculated against their
lowest argmaxes. -/
theorem CpuGreedySpeculativeVerifierV1.verify_eq (verifier : CpuGreedySpeculativeVerifierV1)
    (draft : SpeculativeDraftV1) (schedule : ConfidenceScheduleV1) (rows : List (List F32))
    (htokens : ∀ token ∈ draft.tokens, token.toNat < verifier.vocabSize)
    (hrows : rows.length = schedule.scheduledLen draft + 1)
    (hlen : ∀ row ∈ rows, row.length = verifier.vocabSize)
    (hfin : ∀ row ∈ rows, ∀ x ∈ row, x.isFinite = true) :
    verifier.verify draft schedule rows.flatten =
      .ok (.ofTargets draft schedule (rows.map lowestArgmax)) := by
  have hnone : draft.tokens.findIdx? (fun token => decide (verifier.vocabSize ≤ token.toNat)) =
      none := by
    rw [List.findIdx?_eq_none_iff]
    intro token ht
    exact decide_eq_false (Nat.not_le.2 (htokens token ht))
  have hfit := expected_lt verifier draft schedule
  have hflat : rows.flatten.length = (schedule.scheduledLen draft + 1) * verifier.vocabSize := by
    rw [List.length_flatten, List.map_congr_left hlen, List.map_const', List.sum_replicate_nat,
      hrows]
  have hrow : ∀ row ∈ rows, row ≠ [] ∧ ∀ x ∈ row, x.isFinite = true := by
    intro row hr
    refine ⟨?_, hfin row hr⟩
    rintro rfl
    exact absurd (hlen [] hr) (Nat.ne_of_lt verifier.vocabSize_pos)
  have htargets : (rows.map lowestArgmax).length = schedule.scheduledLen draft + 1 := by
    rw [List.length_map, hrows]
  simp only [verify, hnone, checkedMul_of_lt hfit, hflat, ne_eq, not_true_eq_false, ↓reduceIte,
    chunksExact_flatten verifier.vocabSize_pos rows hlen, targetTokensFrom_eq rows 0 hrow,
    verifyScheduledDraft_eq draft schedule htargets]

/-! ### Accepted verifications -/

private theorem greedyArgmaxFrom_lt {logits rest : List F32} {index best i n : ℕ}
    (h : greedyArgmaxFrom logits index best rest = .ok i) (hbest : best < n)
    (hindex : index + rest.length ≤ n) : i < n := by
  induction rest generalizing index best with
  | nil =>
    cases h
    exact hbest
  | cons value rest ih =>
    rw [List.length_cons] at hindex
    rw [greedyArgmaxFrom] at h
    split_ifs at h
    · exact ih h (by omega) (by omega)
    · exact ih h hbest (by omega)

/-- The scan of a row finds one of its indices. -/
theorem greedyArgmax_lt {logits : List F32} {token : UInt32} (h : greedyArgmax logits = .ok token)
    (hne : logits ≠ []) (hlen : logits.length ≤ 2 ^ 32) : token.toNat < logits.length := by
  unfold greedyArgmax at h
  cases hi : greedyArgmaxFrom logits 0 0 logits with
  | error e =>
    rw [hi] at h
    cases h
  | ok i =>
    rw [hi] at h
    cases h
    have hlt : i < logits.length :=
      greedyArgmaxFrom_lt hi (List.length_pos_of_ne_nil hne) (by omega)
    rwa [UInt32.toNat_ofNat_of_lt' (by change i < 2 ^ 32; omega)]

theorem length_of_mem_chunksExact {n : ℕ} {values row : List F32}
    (h : row ∈ chunksExact n values) : row.length = n := by
  obtain ⟨i, hi, rfl⟩ := List.mem_map.1 h
  have hi' := List.mem_range.1 hi
  have hle : (i + 1) * n ≤ values.length :=
    (Nat.mul_le_mul_right n hi').trans (Nat.div_mul_le_self _ _)
  rw [Nat.succ_mul] at hle
  rw [List.length_take, List.length_drop]
  omega

private theorem targetTokensFrom_lt {rows : List (List F32)} {first n : ℕ} {tokens : List UInt32}
    (h : targetTokensFrom first rows = .ok tokens) (hn : 0 < n) (hn' : n ≤ 2 ^ 32)
    (hrows : ∀ row ∈ rows, row.length = n) : ∀ token ∈ tokens, token.toNat < n := by
  induction rows generalizing first tokens with
  | nil =>
    cases h
    exact fun _ ht => absurd ht List.not_mem_nil
  | cons row rows ih =>
    have hlen : row.length = n := hrows row List.mem_cons_self
    rw [targetTokensFrom] at h
    cases hrow : greedyArgmax row with
    | error e =>
      rw [hrow] at h
      cases h
    | ok token =>
      rw [hrow] at h
      cases hrest : targetTokensFrom (first + 1) rows with
      | error e =>
        simp only [hrest] at h
        cases h
      | ok rest =>
        simp only [hrest] at h
        cases h
        refine List.forall_mem_cons.2 ⟨?_, ih hrest fun r hr =>
          hrows r (List.mem_cons_of_mem _ hr)⟩
        have hne : row ≠ [] := by
          rintro rfl
          rw [List.length_nil] at hlen
          omega
        have hlt := greedyArgmax_lt hrow hne (by omega)
        rwa [hlen] at hlt

private theorem greedyArgmaxFrom_finite {logits rest : List F32} {index best i : ℕ}
    (h : greedyArgmaxFrom logits index best rest = .ok i) : ∀ x ∈ rest, x.isFinite = true := by
  induction rest generalizing index best with
  | nil => exact fun _ hx => absurd hx List.not_mem_nil
  | cons value rest ih =>
    rw [greedyArgmaxFrom] at h
    by_cases hfinite : value.isFinite = true
    · simp only [hfinite, Bool.not_true, Bool.false_eq_true, ↓reduceIte] at h
      split_ifs at h <;> exact List.forall_mem_cons.2 ⟨hfinite, ih h⟩
    · simp only [hfinite, Bool.not_false, ↓reduceIte, reduceCtorEq] at h

/-- A scan that finds an index has met finite values only, and the index is the lowest argmax. -/
theorem greedyArgmax_ok {logits : List F32} {token : UInt32} (h : greedyArgmax logits = .ok token)
    (hne : logits ≠ []) : token = lowestArgmax logits := by
  have hfinite : ∀ x ∈ logits, x.isFinite = true := by
    unfold greedyArgmax at h
    cases hi : greedyArgmaxFrom logits 0 0 logits with
    | error e =>
      rw [hi] at h
      cases h
    | ok i => exact greedyArgmaxFrom_finite hi
  rw [greedyArgmax_eq hne hfinite] at h
  exact (Except.ok.inj h).symm

/-- The tokens found in rows are their lowest argmaxes. -/
theorem targetTokensFrom_ok {rows : List (List F32)} {first : ℕ} {tokens : List UInt32}
    (h : targetTokensFrom first rows = .ok tokens) (hrows : ∀ row ∈ rows, row ≠ []) :
    tokens = rows.map lowestArgmax := by
  induction rows generalizing first tokens with
  | nil =>
    cases h
    rfl
  | cons row rows ih =>
    rw [targetTokensFrom] at h
    cases hrow : greedyArgmax row with
    | error e =>
      rw [hrow] at h
      cases h
    | ok token =>
      rw [hrow] at h
      cases hrest : targetTokensFrom (first + 1) rows with
      | error e =>
        simp only [hrest] at h
        cases h
      | ok rest =>
        simp only [hrest] at h
        cases h
        rw [List.map_cons, greedyArgmax_ok hrow (hrows row List.mem_cons_self),
          ih hrest fun r hr => hrows r (List.mem_cons_of_mem _ hr)]

/-- An accepted verification speculates the draft against the lowest argmaxes of its rows, which are
tokens of the vocabulary, one per scheduled position and one more. -/
theorem CpuGreedySpeculativeVerifierV1.verify_ok {verifier : CpuGreedySpeculativeVerifierV1}
    {draft : SpeculativeDraftV1} {schedule : ConfidenceScheduleV1} {targetLogits : List F32}
    {outcome : SpeculativeVerificationV1}
    (h : verifier.verify draft schedule targetLogits = .ok outcome) :
    ∃ targets : List UInt32, targets.length = schedule.scheduledLen draft + 1 ∧
      (∀ token ∈ targets, token.toNat < verifier.vocabSize) ∧
        targets = (chunksExact verifier.vocabSize targetLogits).map lowestArgmax ∧
          outcome = .ofTargets draft schedule targets := by
  unfold verify at h
  cases hfind : draft.tokens.findIdx? (fun token => decide (verifier.vocabSize ≤ token.toNat)) with
  | some index =>
    simp only [hfind] at h
    cases h
  | none =>
    simp only [hfind] at h
    cases hmul : checkedMul (schedule.scheduledLen draft + 1) verifier.vocabSize with
    | none =>
      simp only [hmul] at h
      cases h
    | some expected =>
      simp only [hmul] at h
      split_ifs at h
      cases htargets : targetTokensFrom 0 (chunksExact verifier.vocabSize targetLogits) with
      | error e =>
        simp only [htargets] at h
        cases h
      | ok targets =>
        simp only [htargets] at h
        have hlen : targets.length = schedule.scheduledLen draft + 1 := by
          by_contra hne
          simp only [verifyScheduledDraft, ne_eq, hne, not_false_eq_true, ↓reduceIte] at h
          cases h
        refine ⟨targets, hlen, ?_, targetTokensFrom_ok htargets fun row hr => ?_, ?_⟩
        · exact targetTokensFrom_lt htargets verifier.vocabSize_pos verifier.vocabSize_lt.le
            fun row hr => length_of_mem_chunksExact hr
        · rintro rfl
          exact verifier.vocabSize_pos.ne (length_of_mem_chunksExact hr)
        · simp only [verifyScheduledDraft_eq draft schedule hlen] at h
          exact (Except.ok.inj h).symm

end NNIS
