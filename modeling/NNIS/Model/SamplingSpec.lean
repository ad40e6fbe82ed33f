import Mathlib.Algebra.Order.Ring.Rat
import Mathlib.Data.List.GetD
import Mathlib.Data.List.Sort
import Mathlib.Tactic.Conv
import Mathlib.Tactic.Linarith
import Mathlib.Tactic.Positivity
import NNIS.Model.Sampling
import NNIS.Numeric.Multiples

/-!
# What the sampler draws

The candidates of a finite row are the first tokens of the vocabulary, ordered by descending logit
and ascending token. A draw decides between the candidates that are left by the two truncations,
each of which keeps a beginning. With exact weights the draw falls in the range of a candidate of
positive weight, whatever the exponential function is.

With one candidate left by the first truncation the second one changes nothing and every draw
returns that candidate, the first token of the order. In double precision its weight is the
exponential of zero, however large the logit and however small the temperature is.

## Main definitions

* `RankedBefore`, `Ranking` — the order of the vocabulary.
* `HostLogitSampler.exactWeight`, `HostLogitSampler.mass` — exact weights of tokens.
* `HostLogitSampler.Drawn` — what a draw with exact weights decides.

## Main results

* `HostLogitSampler.candidates_eq` — the sort in closed form.
* `HostLogitSampler.sample_exact` — what a draw with exact weights returns.
* `HostLogitSampler.sample_eq_of_topK_one` — what a draw of one candidate returns.
* `HostLogitSampler.exists_sample_of_topK_one` — a draw in double precision does not fail.
-/

set_option autoImplicit false

namespace NNIS

/-- A token is ranked before another: by its logit, then by itself. -/
def RankedBefore (logits : List F32) (s t : ℕ) : Prop :=
  let logit (token : ℕ) : F32 := logits.getD token (.zero false)
  (logit t).key < (logit s).key ∨ (logit t).key = (logit s).key ∧ s < t

instance (logits : List F32) : DecidableRel (RankedBefore logits) := fun s t =>
  inferInstanceAs (Decidable ((logits.getD t (.zero false)).key <
      (logits.getD s (.zero false)).key ∨
    (logits.getD t (.zero false)).key = (logits.getD s (.zero false)).key ∧ s < t))

/-- The vocabulary in its order. -/
structure Ranking (logits : List F32) (order : List ℕ) : Prop where
  perm : order.Perm (List.range logits.length)
  sorted : order.Pairwise (RankedBefore logits)

namespace HostLogitSampler

/-! ### The sort -/

private def rankedLe (logits : List F32) (s t : ℕ) : Bool :=
  let logit (token : ℕ) : F32 := logits.getD token (.zero false)
  decide ((logit t).key < (logit s).key ∨ (logit t).key = (logit s).key ∧ s ≤ t)

private theorem pairwise_rankedLe (logits : List F32) :
    ((List.range logits.length).mergeSort (rankedLe logits)).Pairwise
      fun s t => rankedLe logits s t = true := by
  refine List.pairwise_mergeSort (fun a b c hab hbc => ?_) (fun a b => ?_) _
  · simp only [rankedLe, decide_eq_true_eq] at *
    omega
  · simp only [rankedLe, Bool.or_eq_true, decide_eq_true_eq]
    omega

/-- The order of the vocabulary is determined by the logits. -/
private theorem mergeSort_eq {logits : List F32} {order : List ℕ} (h : Ranking logits order) :
    (List.range logits.length).mergeSort (rankedLe logits) = order := by
  refine List.Perm.eq_of_pairwise (fun s t _ _ hst hts => ?_) (pairwise_rankedLe logits)
    (h.sorted.imp fun {s t} hst => ?_) ((List.mergeSort_perm _ _).trans h.perm.symm)
  · simp only [rankedLe, decide_eq_true_eq] at hst hts
    omega
  · simp only [rankedLe, RankedBefore, decide_eq_true_eq] at hst ⊢
    omega

/-- The vocabulary has an order. -/
theorem exists_ranking (logits : List F32) : ∃ order, Ranking logits order := by
  refine ⟨_, List.mergeSort_perm (List.range logits.length) (rankedLe logits), ?_⟩
  have hnodup := (List.mergeSort_perm (List.range logits.length) (rankedLe logits)).nodup_iff.2
    List.nodup_range
  refine (List.Pairwise.and (pairwise_rankedLe logits) hnodup).imp fun {s t} ⟨hle, hne⟩ => ?_
  simp only [rankedLe, RankedBefore, decide_eq_true_eq] at hle ⊢
  omega

variable {W : Type} (ops : WeightArithmetic W)

/-- The candidate of a token, before its weight is known. -/
def unweighed (logits : List F32) (token : ℕ) : Candidate W where
  token := UInt32.ofNat token
  logit := logits.getD token (.zero false)
  weight := ops.zero

private theorem zipIdx_map {β : Type} (logits : List F32) (f : F32 → ℕ → β) :
    (logits.zipIdx.map fun (logit, token) => f logit token) =
      (List.range logits.length).map fun token => f (logits.getD token (.zero false)) token := by
  refine List.ext_getElem? fun i => ?_
  rw [List.getElem?_map, List.getElem?_zipIdx, List.getElem?_map]
  rcases Nat.lt_or_ge i logits.length with hi | hi
  · rw [List.getElem?_eq_getElem hi, List.getElem?_range hi]
    simp only [Option.map_some, Nat.zero_add, List.getD_eq_getElem _ _ hi]
  · rw [List.getElem?_eq_none hi, List.getElem?_eq_none (by rwa [List.length_range])]
    rfl

/-- The order of two numbers, and of two tokens if they are equal. -/
private theorem isLE_then_compare {x y : ℤ} {s t : ℕ} (hs : s < UInt32.size)
    (ht : t < UInt32.size) :
    ((compare x y).then (compare (UInt32.ofNat s) (UInt32.ofNat t))).isLE =
      decide (x < y ∨ x = y ∧ s ≤ t) := by
  have htokens : (compare (UInt32.ofNat s) (UInt32.ofNat t)).isLE = decide (s ≤ t) := by
    have hs' : (UInt32.ofNat s).toNat = s := UInt32.toNat_ofNat_of_lt' hs
    have ht' : (UInt32.ofNat t).toNat = t := UInt32.toNat_ofNat_of_lt' ht
    change (compareOfLessAndEq (UInt32.ofNat s) (UInt32.ofNat t)).isLE = _
    rw [compareOfLessAndEq]
    split_ifs with hlt heq
    · rw [UInt32.lt_iff_toNat_lt, hs', ht'] at hlt
      exact (decide_eq_true hlt.le).symm
    · rw [← UInt32.toNat_inj, hs', ht'] at heq
      exact (decide_eq_true heq.le).symm
    · rw [UInt32.lt_iff_toNat_lt, hs', ht'] at hlt
      rw [← UInt32.toNat_inj, hs', ht'] at heq
      exact (decide_eq_false (by omega)).symm
  rcases lt_trichotomy x y with hlt | heq | hgt
  · rw [compare_lt_iff_lt.2 hlt, decide_eq_true (.inl hlt)]
    rfl
  · rw [compare_eq_iff_eq.2 heq, Ordering.then, htokens]
    simp [heq]
  · rw [compare_gt_iff_gt.2 hgt, decide_eq_false (by omega)]
    rfl

/-- The candidates are the tokens in their order. -/
theorem candidates_eq {logits : List F32} {order : List ℕ} (h : Ranking logits order)
    (hfinite : ∀ x ∈ logits, x.isFinite = true) (hlt : logits.length ≤ UInt32.size) :
    candidates ops logits = order.map (unweighed ops logits) := by
  rw [← mergeSort_eq h, candidates, zipIdx_map logits fun logit token =>
    (⟨UInt32.ofNat token, logit, ops.zero⟩ : Candidate W)]
  refine (List.map_mergeSort fun s hs t ht => ?_).symm
  rw [List.mem_range] at hs ht
  have hnumber : ∀ token < logits.length,
      (logits.getD token (.zero false)).isNaN = false := fun token htoken => by
    rw [List.getD_eq_getElem _ _ htoken]
    exact Binary.isNaN_eq_false (hfinite _ (List.getElem_mem htoken))
  have hcmp : partialCmp (logits.getD t (.zero false)) (logits.getD s (.zero false)) =
      some (compare (logits.getD t (.zero false)).key (logits.getD s (.zero false)).key) := by
    rw [partialCmp, hnumber s hs, hnumber t ht]
    rfl
  change rankedLe logits s t = (((partialCmp (logits.getD t (.zero false))
    (logits.getD s (.zero false))).getD .eq).then
      (compare (UInt32.ofNat s) (UInt32.ofNat t))).isLE
  rw [hcmp, Option.getD_some, isLE_then_compare (hs.trans_le hlt) (ht.trans_le hlt)]
  rfl

/-! ### The weights -/

/-- The weight of a logit, relative to the greatest one. -/
def softmaxWeight (temperature greatest logit : F32) : W :=
  let inverseTemperature := ops.recip (ops.ofF32 temperature)
  ops.exp (ops.sub (ops.mul (ops.ofF32 logit) inverseTemperature)
    (ops.mul (ops.ofF32 greatest) inverseTemperature))

/-- A weight that is accepted. -/
def Acceptable (weight : W) : Prop := ops.isFinite weight = true ∧ ops.lt weight ops.zero = false

variable {ops}

private theorem weigh_eq_ok_iff {temperature greatest : F32}
    {state next : List (Candidate W) × W} {candidate : Candidate W} :
    weigh ops (ops.recip (ops.ofF32 temperature))
        (ops.mul (ops.ofF32 greatest) (ops.recip (ops.ofF32 temperature))) state candidate =
        .ok next ↔
      let weight := softmaxWeight ops temperature greatest candidate.logit
      Acceptable ops weight ∧
        next = (state.1 ++ [{ candidate with weight := weight }], ops.add state.2 weight) := by
  rw [weigh, Except.ite_error_eq_ok_iff, Except.ok.injEq, Bool.or_eq_true, Bool.not_eq_true',
    not_or, Bool.not_eq_false, Bool.not_eq_true]
  exact and_congr_right fun _ => eq_comm

/-- The loop over the candidates in closed form. -/
private theorem foldlM_weigh_eq_ok_iff {temperature greatest : F32}
    {candidates : List (Candidate W)} {state next : List (Candidate W) × W} :
    candidates.foldlM (weigh ops (ops.recip (ops.ofF32 temperature))
        (ops.mul (ops.ofF32 greatest) (ops.recip (ops.ofF32 temperature)))) state = .ok next ↔
      let weight (candidate : Candidate W) : W :=
        softmaxWeight ops temperature greatest candidate.logit
      (∀ candidate ∈ candidates, Acceptable ops (weight candidate)) ∧
        next = (state.1 ++ candidates.map fun candidate =>
            { candidate with weight := weight candidate },
          (candidates.map weight).foldl ops.add state.2) := by
  induction candidates generalizing state with
  | nil => simp [pure, Except.pure, eq_comm]
  | cons candidate rest ih =>
    rw [List.foldlM_cons, Except.bind_eq_ok_iff]
    constructor
    · rintro ⟨middle, hfirst, hrest⟩
      obtain ⟨hok, rfl⟩ := weigh_eq_ok_iff.1 hfirst
      obtain ⟨hall, rfl⟩ := ih.1 hrest
      exact ⟨List.forall_mem_cons.2 ⟨hok, hall⟩, by simp⟩
    · rintro ⟨hall, rfl⟩
      obtain ⟨hok, hall⟩ := List.forall_mem_cons.1 hall
      exact ⟨_, weigh_eq_ok_iff.2 ⟨hok, rfl⟩, ih.2 ⟨hall, by simp⟩⟩

/-- The weight of a token, relative to the first one of a list. -/
def tokenWeight (ops : WeightArithmetic W) (temperature : F32) (logits : List F32)
    (order : List ℕ) (token : ℕ) : W :=
  softmaxWeight ops temperature (logits.getD (order.headD 0) (.zero false))
    (logits.getD token (.zero false))

/-- The candidate of a token, with its weight. -/
def weighed (ops : WeightArithmetic W) (temperature : F32) (logits : List F32)
    (order : List ℕ) (token : ℕ) : Candidate W where
  token := UInt32.ofNat token
  logit := logits.getD token (.zero false)
  weight := tokenWeight ops temperature logits order token

private theorem headD_map_unweighed {logits : List F32} {order : List ℕ} (hne : order ≠ []) :
    ((order.map (unweighed ops logits)).headD ⟨0, .zero false, ops.zero⟩).logit =
      logits.getD (order.headD 0) (.zero false) := by
  cases order with
  | nil => exact absurd rfl hne
  | cons token rest => rfl

/-- The weights of the first tokens in closed form. -/
theorem weighAll_eq_ok_iff {temperature : F32} {logits : List F32} {order : List ℕ}
    (hne : order ≠ []) {result : List (Candidate W) × W} :
    weighAll ops temperature (order.map (unweighed ops logits)) = .ok result ↔
      let weight := tokenWeight ops temperature logits order
      let total := (order.map weight).foldl ops.add ops.zero
      (∀ token ∈ order, Acceptable ops (weight token)) ∧
        (ops.isFinite total = true ∧ ops.le total ops.zero = false) ∧
          result = (order.map (weighed ops temperature logits order), total) := by
  have hlist : (order.map (unweighed ops logits)).map (fun candidate =>
      { candidate with
        weight := softmaxWeight ops temperature (logits.getD (order.headD 0) (.zero false))
          candidate.logit }) =
      order.map (weighed ops temperature logits order) := List.map_map
  have hweights : (order.map (unweighed ops logits)).map (fun candidate =>
      softmaxWeight ops temperature (logits.getD (order.headD 0) (.zero false)) candidate.logit) =
      order.map (tokenWeight ops temperature logits order) := List.map_map
  rw [weighAll, Except.bind_eq_ok_iff]
  simp only [headD_map_unweighed hne, foldlM_weigh_eq_ok_iff, List.nil_append, hlist, hweights,
    List.forall_mem_map]
  constructor
  · rintro ⟨_, ⟨hall, rfl⟩, hresult⟩
    rw [Except.ite_error_eq_ok_iff, Bool.or_eq_true, Bool.not_eq_true', not_or, Bool.not_eq_false,
      Bool.not_eq_true, Except.ok.injEq] at hresult
    exact ⟨hall, hresult.1, hresult.2.symm⟩
  · rintro ⟨hall, hmass, rfl⟩
    refine ⟨_, ⟨hall, rfl⟩, ?_⟩
    rw [Except.ite_error_eq_ok_iff, Bool.or_eq_true, Bool.not_eq_true', not_or, Bool.not_eq_false,
      Bool.not_eq_true, Except.ok.injEq]
    exact ⟨hmass, rfl⟩

/-! ### The candidates that are left -/

/-- The number of candidates that the first truncation leaves. -/
def kept (sampler : HostLogitSampler) : ℕ := sampler.config.topK.getD sampler.vocabSize

theorem kept_pos (sampler : HostLogitSampler) : 0 < sampler.kept := by
  rw [kept]
  cases htopK : sampler.config.topK with
  | none => exact sampler.valid.vocabSize_pos
  | some k => exact (sampler.valid.topK k htopK).1

theorem kept_le (sampler : HostLogitSampler) : sampler.kept ≤ sampler.vocabSize := by
  rw [kept]
  cases htopK : sampler.config.topK with
  | none => exact Nat.le_refl _
  | some k => exact (sampler.valid.topK k htopK).2

private theorem find?_isFinite_eq_none_iff {logits : List F32} :
    (logits.zipIdx.find? fun (value, _) => !value.isFinite) = none ↔
      ∀ x ∈ logits, x.isFinite = true := by
  have hvalues : logits.zipIdx.map Prod.fst = logits := List.zipIdx_map_fst 0 logits
  conv_rhs => rw [← hvalues]
  rw [List.find?_eq_none, List.forall_mem_map]
  simp

/-- The candidates that are left in terms of the order of the vocabulary. -/
theorem retain_eq_ok_iff {sampler : HostLogitSampler} {logits : List F32} {order : List ℕ}
    (h : Ranking logits order) {result : List (Candidate W) × W} :
    sampler.retain ops logits = .ok result ↔ logits.length = sampler.vocabSize ∧
      (∀ x ∈ logits, x.isFinite = true) ∧ ∃ weighted,
        weighAll ops sampler.config.temperature
          ((order.take sampler.kept).map (unweighed ops logits)) = .ok weighted ∧
          result = restrict ops sampler.config.topP weighted := by
  rw [retain, Except.ite_error_eq_ok_iff, not_ne_iff]
  refine and_congr_right fun hlength => ?_
  cases hfind : logits.zipIdx.find? fun (value, _) => !value.isFinite with
  | some found =>
    refine ⟨nofun, fun hfinite => ?_⟩
    rw [find?_isFinite_eq_none_iff.2 hfinite.1] at hfind
    exact absurd hfind nofun
  | none =>
    have hfinite := find?_isFinite_eq_none_iff.1 hfind
    have hlt : logits.length ≤ UInt32.size := hlength ▸ sampler.vocabSize_lt.le
    have hfirst : truncate sampler.config.topK (candidates ops logits) =
        (order.take sampler.kept).map (unweighed ops logits) := by
      rw [candidates_eq ops h hfinite hlt, kept]
      cases sampler.config.topK with
      | none =>
        have hall : order.length = sampler.vocabSize := by
          rw [h.perm.length_eq, List.length_range, hlength]
        rw [Option.getD_none, ← hall, List.take_length]
        rfl
      | some k => exact List.map_take.symm
    simp only [hfirst]
    rw [Except.bind_eq_ok_iff]
    constructor
    · rintro ⟨weighted, hweighted, hresult⟩
      exact ⟨hfinite, weighted, hweighted, (Except.ok.inj hresult).symm⟩
    · rintro ⟨-, weighted, hweighted, rfl⟩
      exact ⟨weighted, hweighted, rfl⟩

/-- A draw between the candidates that are left, if there are any. -/
theorem run_sample (sampler : HostLogitSampler) (logits : List F32) :
    (sample ops logits).run sampler =
      match sampler.retain ops logits with
      | .error e => (.error e, sampler)
      | .ok (candidates, totalWeight) =>
        (select ops candidates (ops.mul (sampler.rng.nextUnitF64 ops) totalWeight),
          { sampler with rng := sampler.rng.next }) := by
  rw [sample, Fallible.run_bind_ok (Fallible.run_get sampler)]
  cases hretain : sampler.retain ops logits with
  | error e => rfl
  | ok result => rfl

theorem select_eq_of_firstReaching {candidates : List (Candidate W)} {draw : W} {i : ℕ}
    (hi : i < candidates.length)
    (h : firstReaching ops.add (fun cumulative => ops.lt draw cumulative) ops.zero
      (candidates.map Candidate.weight) = some i) :
    select ops candidates draw = .ok candidates[i].token := by
  rw [select, h, Option.bind_eq_bind, Option.bind_some, List.getElem?_eq_getElem hi]

/-! ### Exact weights -/

section Exact

variable {K : Type} [Field K]

/-- The exact weight of a token: the exponential of its scaled logit, relative to the first token
of the order. -/
def exactWeight (exp : K → K) (temperature : F32) (logits : List F32) (order : List ℕ)
    (token : ℕ) : K :=
  let logit (token : ℕ) : K := exactValue K (logits.getD token (.zero false))
  exp ((logit token - logit (order.headD 0)) / exactValue K temperature)

/-- The weight of the first tokens of an order. -/
def mass (exp : K → K) (temperature : F32) (logits : List F32) (order : List ℕ) (n : ℕ) : K :=
  ((order.take n).map (exactWeight exp temperature logits order)).sum

private theorem sum_take_map {exp : K → K} {temperature : F32} {logits : List F32}
    {order : List ℕ} (n m : ℕ) :
    (((order.take n).map (exactWeight exp temperature logits order)).take m).sum =
      mass exp temperature logits order (min m n) := by
  rw [← List.map_take, List.take_take, mass]

variable [LinearOrder K]

/-- What a draw with exact weights decides: the first `m` tokens of the order are left, and the
draw falls in the range of the token at the position `i`. -/
structure Drawn (exp : K → K) (sampler : HostLogitSampler) (logits : List F32) (order : List ℕ)
    (token : UInt32) (m i : ℕ) : Prop where
  le_kept : m ≤ sampler.kept
  eq_kept : sampler.config.topP = none → m = sampler.kept
  /-- The tokens that are left have the required share of the weight. -/
  share : ∀ p ∈ sampler.config.topP, exactValue K p ≤
    mass exp sampler.config.temperature logits order m /
      mass exp sampler.config.temperature logits order sampler.kept
  /-- Fewer tokens do not have it. -/
  shortest : ∀ p ∈ sampler.config.topP, ∀ n < m,
    mass exp sampler.config.temperature logits order n /
      mass exp sampler.config.temperature logits order sampler.kept < exactValue K p
  lt : i < m
  getElem?_eq : order[i]? = some token.toNat
  weight_pos : 0 < exactWeight exp sampler.config.temperature logits order token.toNat
  mass_le : mass exp sampler.config.temperature logits order i ≤
    (sampler.rng.nextU64 >>> 11).toNat / 2 ^ 53 *
      mass exp sampler.config.temperature logits order m
  lt_mass : (sampler.rng.nextU64 >>> 11).toNat / 2 ^ 53 *
      mass exp sampler.config.temperature logits order m <
    mass exp sampler.config.temperature logits order (i + 1)

variable {exp : K → K} {display : F32 → String} {temperature : F32} {logits : List F32}
  {order : List ℕ}

private theorem tokenWeight_exact {n : ℕ} (hn : 0 < n) (token : ℕ) :
    tokenWeight (exactWeights exp display) temperature logits (order.take n) token =
      exactWeight exp temperature logits order token := by
  have hhead : (order.take n).headD 0 = order.headD 0 := by
    cases order with
    | nil => rw [List.take_nil]
    | cons first rest =>
      obtain ⟨n, rfl⟩ := Nat.exists_eq_succ_of_ne_zero hn.ne'
      rfl
  change exp (exactValue K _ * (exactValue K temperature)⁻¹ -
    exactValue K (logits.getD ((order.take n).headD 0) (.zero false)) *
      (exactValue K temperature)⁻¹) = _
  rw [hhead, ← sub_mul, ← div_eq_mul_inv]
  rfl

private theorem map_tokenWeight_exact {n : ℕ} (hn : 0 < n) (l : List ℕ) :
    l.map (tokenWeight (exactWeights exp display) temperature logits (order.take n)) =
      l.map (exactWeight exp temperature logits order) :=
  List.map_congr_left fun token _ => tokenWeight_exact hn token

/-- The weights of the first tokens. -/
private theorem weighAll_exact {n : ℕ} (hn : 0 < n) (hle : n ≤ order.length)
    {result : List (Candidate K) × K} :
    weighAll (exactWeights exp display) temperature
        ((order.take n).map (unweighed (exactWeights exp display) logits)) = .ok result ↔
      (∀ token ∈ order.take n, 0 ≤ exactWeight exp temperature logits order token) ∧
        0 < mass exp temperature logits order n ∧
          result = ((order.take n).map
              (weighed (exactWeights exp display) temperature logits (order.take n)),
            mass exp temperature logits order n) := by
  have hne : order.take n ≠ [] := by
    rw [ne_eq, List.take_eq_nil_iff, not_or]
    refine ⟨hn.ne', ?_⟩
    rintro rfl
    exact absurd hle (Nat.not_le.2 hn)
  have htotal : ((order.take n).map (tokenWeight (exactWeights exp display) temperature logits
      (order.take n))).foldl (exactWeights exp display).add (exactWeights exp display).zero =
      mass exp temperature logits order n := by
    rw [map_tokenWeight_exact hn, mass, List.sum_eq_foldl]
    rfl
  rw [weighAll_eq_ok_iff hne]
  simp only [htotal, Acceptable, tokenWeight_exact hn]
  refine and_congr ?_ (and_congr ?_ Iff.rfl)
  · refine forall₂_congr fun token _ => ?_
    exact (and_iff_right rfl).trans (decide_eq_false_iff_not.trans not_lt)
  · exact (and_iff_right rfl).trans (decide_eq_false_iff_not.trans not_le)

variable [IsStrictOrderedRing K]

private theorem exactValue_topP {p : F32} (hfinite : p.isFinite = true)
    (hpos : p.le (.zero false) = false) (hle : (Binary.ofBits 0x3F800000 : F32).lt p = false) :
    0 < exactValue K p ∧ exactValue K p ≤ 1 := by
  obtain ⟨hnegative, hunits⟩ := Binary.pos_of_not_le_zero hfinite hpos
  have hone : p.units ≤ 2 ^ binary32.point := by
    have h := (Binary.lt_iff_units_lt (x := (Binary.ofBits 0x3F800000 : F32)) (by decide) hfinite
      (by decide) hnegative).not.1 (by rw [hle]; exact Bool.false_ne_true)
    have hvalue : (Binary.ofBits 0x3F800000 : F32).units = 2 ^ binary32.point := by decide +kernel
    rw [hvalue] at h
    exact Nat.not_lt.1 h
  have hpoint : (0 : K) < 2 ^ binary32.point := by positivity
  have hsigned : (p.signedUnits : K) = (p.units : K) := by
    rw [Binary.signedUnits, hnegative, if_neg Bool.false_ne_true, Int.cast_natCast]
  rw [exactValue, hsigned]
  refine ⟨div_pos (Nat.cast_pos.2 hunits) hpoint, (div_le_one hpoint).2 ?_⟩
  have h := Nat.cast_le (α := K).2 hone
  rwa [Nat.cast_pow, Nat.cast_ofNat] at h

/-- The candidates that are left after the second truncation. -/
private theorem restrict_exact (display : F32 → String) {topP : Option F32} {n : ℕ}
    (hn : 0 < n) (hle : n ≤ order.length)
    (hmass : 0 < mass exp temperature logits order n)
    (htopP : ∀ p ∈ topP, p.isFinite = true ∧ p.le (.zero false) = false ∧
      (Binary.ofBits 0x3F800000 : F32).lt p = false) :
    ∃ m, m ≤ n ∧ 0 < mass exp temperature logits order m ∧ (topP = none → m = n) ∧
      (∀ p ∈ topP, exactValue K p ≤
        mass exp temperature logits order m / mass exp temperature logits order n) ∧
      (∀ p ∈ topP, ∀ l < m, mass exp temperature logits order l /
        mass exp temperature logits order n < exactValue K p) ∧
      restrict (exactWeights exp display) topP ((order.take n).map
        (weighed (exactWeights exp display) temperature logits (order.take n)),
          mass exp temperature logits order n) =
        ((order.take m).map
          (weighed (exactWeights exp display) temperature logits (order.take n)),
            mass exp temperature logits order m) := by
  cases topP with
  | none => exact ⟨n, Nat.le_refl n, hmass, fun _ => rfl, nofun, nofun, rfl⟩
  | some p =>
    obtain ⟨hpos, hone⟩ : 0 < exactValue K p ∧ exactValue K p ≤ 1 :=
      exactValue_topP (htopP p rfl).1 (htopP p rfl).2.1 (htopP p rfl).2.2
    have hweights : ((order.take n).map (weighed (exactWeights exp display) temperature logits
        (order.take n))).map Candidate.weight =
        (order.take n).map (exactWeight exp temperature logits order) := by
      rw [List.map_map]
      exact map_tokenWeight_exact hn (order.take n)
    have hlength : (order.take n).length = n := List.length_take_of_le hle
    have hne : (order.take n).map (exactWeight exp temperature logits order) ≠ [] := fun h =>
      hn.ne' (by rw [← hlength, List.map_eq_nil_iff.1 h, List.length_nil])
    have hthreshold : exactValue K p * mass exp temperature logits order n ≤
        ((order.take n).map (exactWeight exp temperature logits order)).sum :=
      mul_le_of_le_one_left hmass.le hone
    obtain ⟨i, hi, hfirst, hreached, hbefore⟩ := exists_firstReaching_ge hne hthreshold
    rw [List.length_map, hlength] at hi
    rw [sum_take_map, Nat.min_eq_left hi] at hreached
    refine ⟨i + 1, hi, (mul_pos hpos hmass).trans_le hreached, nofun, ?_, ?_, ?_⟩
    · rintro _ ⟨⟩
      exact (le_div_iff₀ hmass).2 hreached
    · rintro _ ⟨⟩ l hl
      rw [div_lt_iff₀ hmass]
      cases l with
      | zero =>
        rw [mass, List.take_zero, List.map_nil, List.sum_nil]
        exact mul_pos hpos hmass
      | succ l =>
        have h := hbefore l (Nat.lt_of_succ_lt_succ hl)
        rwa [sum_take_map, Nat.min_eq_left (hl.le.trans hi)] at h
    · have hretained : firstReaching (exactWeights exp display).add
          (fun cumulative => (exactWeights exp display).le
            ((exactWeights exp display).mul ((exactWeights exp display).ofF32 p)
              (mass exp temperature logits order n)) cumulative)
          (exactWeights exp display).zero
          (((order.take n).map (weighed (exactWeights exp display) temperature logits
            (order.take n))).map Candidate.weight) = some i := by
        rw [hweights]
        exact hfirst
      rw [restrict, nucleus, hretained, Nat.max_eq_left (Nat.succ_pos i), ← List.map_take,
        List.take_take, Nat.min_eq_left hi]
      refine Prod.ext rfl ?_
      rw [List.map_map]
      change ((order.take (i + 1)).map (tokenWeight (exactWeights exp display) temperature logits
        (order.take n))).foldl (· + ·) 0 = _
      rw [map_tokenWeight_exact hn, ← List.sum_eq_foldl, mass]

private theorem word_lt (rng : SplitMix64) : (rng.nextU64 >>> 11).toNat < 2 ^ 53 := by
  have h := rng.nextU64.toNat_lt
  rw [UInt64.toNat_shiftRight, Nat.shiftRight_eq_div_pow]
  exact Nat.div_lt_of_lt_mul (by simpa using h)

/-- The token in whose range a draw falls. -/
private theorem select_exact (display : F32 → String) {n m : ℕ}
    (hn : 0 < n) (hmn : m ≤ n) (hle : n ≤ order.length)
    (hmass : 0 < mass exp temperature logits order m) (rng : SplitMix64) :
    ∃ i token, i < m ∧ order[i]? = some token ∧
      select (exactWeights exp display) ((order.take m).map
          (weighed (exactWeights exp display) temperature logits (order.take n)))
          ((exactWeights exp display).mul (rng.nextUnitF64 (exactWeights exp display))
            (mass exp temperature logits order m)) = .ok (UInt32.ofNat token) ∧
      0 < exactWeight exp temperature logits order token ∧
      mass exp temperature logits order i ≤
        (rng.nextU64 >>> 11).toNat / 2 ^ 53 * mass exp temperature logits order m ∧
      (rng.nextU64 >>> 11).toNat / 2 ^ 53 * mass exp temperature logits order m <
        mass exp temperature logits order (i + 1) := by
  have hpow : (0 : K) < 2 ^ 53 := by positivity
  have hunit : ((rng.nextU64 >>> 11).toNat / 2 ^ 53 : K) < 1 := by
    have h := Nat.cast_lt (α := K).2 (word_lt rng)
    rw [Nat.cast_pow, Nat.cast_ofNat] at h
    exact (div_lt_one hpow).2 h
  have hnonneg : (0 : K) ≤ (rng.nextU64 >>> 11).toNat / 2 ^ 53 := by positivity
  have hbelow : (rng.nextU64 >>> 11).toNat / 2 ^ 53 * mass exp temperature logits order m <
      ((order.take m).map (exactWeight exp temperature logits order)).sum :=
    mul_lt_of_lt_one_left hmass hunit
  have hlength : ((order.take m).map (exactWeight exp temperature logits order)).length = m := by
    rw [List.length_map, List.length_take_of_le (hmn.trans hle)]
  obtain ⟨i, hi, hfirst, hfrom, hto⟩ := exists_firstReaching_lt
    (mul_nonneg hnonneg hmass.le) hbelow
  have hpositive := pos_of_sum_take_lt hi (hfrom.trans_lt hto)
  rw [hlength] at hi
  have hrange : i < order.length := hi.trans_le (hmn.trans hle)
  rw [sum_take_map, Nat.min_eq_left hi.le] at hfrom
  rw [sum_take_map, Nat.min_eq_left hi] at hto
  rw [List.getElem_map, List.getElem_take] at hpositive
  refine ⟨i, order[i], hi, List.getElem?_eq_getElem hrange, ?_, hpositive, hfrom, hto⟩
  have hweights : ((order.take m).map (weighed (exactWeights exp display) temperature logits
      (order.take n))).map Candidate.weight =
      (order.take m).map (exactWeight exp temperature logits order) := by
    rw [List.map_map]
    exact map_tokenWeight_exact hn (order.take m)
  have hcandidate : i < ((order.take m).map (weighed (exactWeights exp display) temperature logits
      (order.take n))).length := by
    rw [List.length_map, List.length_take_of_le (hmn.trans hle)]
    exact hi
  rw [select_eq_of_firstReaching hcandidate (by rw [hweights]; exact hfirst), List.getElem_map,
    List.getElem_take]
  rfl

/-- The outcome of a draw with exact weights, for any exponential function. The token is one of the
shortest beginning of the first tokens of the order that has the required share of their weight,
its own weight is not zero, and the generator advances by one draw; a failure leaves it alone, and
there is none for a row of finite logits if the exponential is positive. -/
theorem sample_exact (display : F32 → String) (h : Ranking logits order)
    (sampler : HostLogitSampler) :
    (∀ token after, (sample (exactWeights exp display) logits).run sampler = (.ok token, after) →
        after = { sampler with rng := sampler.rng.next } ∧
          ∃ m i, Drawn exp sampler logits order token m i) ∧
      (∀ e after, (sample (exactWeights exp display) logits).run sampler = (.error e, after) →
        after = sampler) ∧
      ((∀ x, 0 < exp x) → logits.length = sampler.vocabSize → (∀ x ∈ logits, x.isFinite = true) →
        ∃ token after, (sample (exactWeights exp display) logits).run sampler =
          (.ok token, after)) := by
  -- A draw between candidates that are left returns a token.
  have hdraw : ∀ result, sampler.retain (exactWeights exp display) logits = .ok result →
      ∃ token m i, (sample (exactWeights exp display) logits).run sampler =
        (.ok token, { sampler with rng := sampler.rng.next }) ∧
          Drawn exp sampler logits order token m i := by
    intro result hretain
    obtain ⟨hlength, -, weighted, hweighted, rfl⟩ := (retain_eq_ok_iff h).1 hretain
    have horder : order.length = sampler.vocabSize := by
      rw [h.perm.length_eq, List.length_range, hlength]
    have hkept : sampler.kept ≤ order.length := horder ▸ sampler.kept_le
    obtain ⟨-, hmass, rfl⟩ := (weighAll_exact sampler.kept_pos hkept).1 hweighted
    obtain ⟨m, hm, hpos, hnone, hshare, hshortest, hrestrict⟩ := restrict_exact display
      sampler.kept_pos hkept hmass sampler.valid.topP
    obtain ⟨i, token, hi, hget, hselect, hweight, hfrom, hto⟩ := select_exact display
      sampler.kept_pos hm hkept hpos sampler.rng
    have htoken : (UInt32.ofNat token).toNat = token := by
      refine UInt32.toNat_ofNat_of_lt' ((?_ : token < sampler.vocabSize).trans sampler.vocabSize_lt)
      rw [← hlength, ← List.mem_range]
      exact h.perm.mem_iff.1 (List.mem_of_getElem? hget)
    refine ⟨UInt32.ofNat token, m, i, ?_, ⟨hm, hnone, hshare, hshortest, hi, ?_, ?_, hfrom, hto⟩⟩
    · rw [run_sample, hretain, hrestrict]
      exact Prod.ext hselect rfl
    · rw [htoken, hget]
    · rwa [htoken]
  refine ⟨fun token after hrun => ?_, fun e after hrun => ?_, fun hpos hlength hfinite => ?_⟩
  · cases hretain : sampler.retain (exactWeights exp display) logits with
    | error e =>
      rw [run_sample, hretain] at hrun
      exact absurd (congrArg Prod.fst hrun) nofun
    | ok result =>
      obtain ⟨drawn, m, i, hok, hdrawn⟩ := hdraw result hretain
      obtain ⟨⟨⟩, rfl⟩ := Prod.mk.inj (hok.symm.trans hrun)
      exact ⟨rfl, m, i, hdrawn⟩
  · cases hretain : sampler.retain (exactWeights exp display) logits with
    | error e =>
      rw [run_sample, hretain] at hrun
      exact (congrArg Prod.snd hrun).symm
    | ok result =>
      obtain ⟨drawn, m, i, hok, -⟩ := hdraw result hretain
      exact absurd (congrArg Prod.fst (hok.symm.trans hrun)) nofun
  · have horder : order.length = sampler.vocabSize := by
      rw [h.perm.length_eq, List.length_range, hlength]
    have hkept : sampler.kept ≤ order.length := horder ▸ sampler.kept_le
    have hmass : 0 < mass exp sampler.config.temperature logits order sampler.kept := by
      rw [mass]
      refine List.sum_pos _ (fun weight hweight => ?_) ?_
      · obtain ⟨token, -, rfl⟩ := List.mem_map.1 hweight
        exact hpos _
      · rw [ne_eq, List.map_eq_nil_iff, ← List.length_eq_zero_iff,
          List.length_take_of_le hkept]
        exact sampler.kept_pos.ne'
    obtain ⟨token, m, i, hok, -⟩ := hdraw _ ((retain_eq_ok_iff h).2 ⟨hlength, hfinite, _,
      (weighAll_exact sampler.kept_pos hkept).2 ⟨fun _ _ => (hpos _).le, hmass, rfl⟩, rfl⟩)
    exact ⟨token, _, hok⟩

/-- A draw between the first two of three tokens, the logits of which are equal. -/
theorem sample_exact_three :
    let exp : ℚ → ℚ := fun x => if 0 ≤ x then 1 + x else 1 / (1 - x)
    let one : F32 := .ofBits 0x3F800000
    let two : F32 := .ofBits 0x40000000
    ∃ sampler : HostLogitSampler,
      sampler.config = { temperature := one, topK := some 2, topP := some one, seed := 7 } ∧
      ∃ token m i, (sample (exactWeights exp fun _ => "") [one, two, two]).run sampler =
        (.ok token, { sampler with rng := sampler.rng.next }) ∧
        Drawn exp sampler [one, two, two] [1, 2, 0] token m i := by
  intro exp one two
  have hrank : Ranking [one, two, two] [1, 2, 0] := ⟨by decide, by decide⟩
  have hvalid : SamplingConfig.Valid
      { temperature := one, topK := some 2, topP := some one, seed := 7 } 3 := by
    refine ⟨by decide, by decide, by decide, ?_, ?_⟩
    · rintro _ ⟨⟩
      decide
    · rintro _ ⟨⟩
      decide
  have hpos : ∀ x, 0 < exp x := by
    intro x
    by_cases hx : 0 ≤ x
    · rw [show exp x = 1 + x from if_pos hx]
      linarith
    · rw [show exp x = 1 / (1 - x) from if_neg hx]
      exact one_div_pos.2 (by linarith)
  obtain ⟨hok, -, hreturns⟩ := @sample_exact ℚ _ _ exp _ _ _ (fun _ => "") hrank
    ⟨_, ⟨7⟩, 3, hvalid, by decide⟩
  obtain ⟨token, after, hrun⟩ := hreturns hpos rfl (by decide)
  obtain ⟨rfl, m, i, hdrawn⟩ := hok token after hrun
  exact ⟨_, rfl, token, m, i, hrun, hdrawn⟩

end Exact

section Draw

variable {candidate : Candidate W}

private theorem restrict_singleton (topP : Option F32) (total : W) :
    (restrict ops topP ([candidate], total)).1 = [candidate] := by
  cases topP with
  | none => rfl
  | some p =>
    change [candidate].take _ = [candidate]
    exact List.take_of_length_le (Nat.le_max_right _ _)

private theorem select_singleton (draw : W) :
    select ops [candidate] draw = .ok candidate.token := by
  rw [select, List.map_singleton, firstReaching]
  split_ifs <;> rfl

variable {sampler : HostLogitSampler} {logits : List F32} {order : List ℕ}

private theorem take_kept (h : Ranking logits order) (hk : sampler.config.topK = some 1)
    (hlength : logits.length = sampler.vocabSize) : order.take sampler.kept = [order.headD 0] := by
  have hpos : 0 < order.length := by
    rw [h.perm.length_eq, List.length_range, hlength]
    exact sampler.valid.vocabSize_pos
  rw [kept, hk, Option.getD_some]
  cases order with
  | nil => exact absurd hpos (Nat.lt_irrefl 0)
  | cons token rest => rfl

/-- A draw between one candidate returns the first token of the order. -/
theorem sample_eq_of_topK_one (h : Ranking logits order) (hk : sampler.config.topK = some 1)
    {token : UInt32} {after : HostLogitSampler}
    (hrun : (sample ops logits).run sampler = (.ok token, after)) :
    token = UInt32.ofNat (order.headD 0) ∧
      after = { sampler with rng := sampler.rng.next } ∧
        logits.length = sampler.vocabSize ∧ ∀ x ∈ logits, x.isFinite = true := by
  rw [run_sample] at hrun
  cases hretain : sampler.retain ops logits with
  | error e =>
    rw [hretain] at hrun
    exact absurd (congrArg Prod.fst hrun) nofun
  | ok result =>
    obtain ⟨hlength, hfinite, weighted, hweighted, rfl⟩ := (retain_eq_ok_iff h).1 hretain
    rw [take_kept h hk hlength] at hweighted
    obtain ⟨-, -, rfl⟩ := (weighAll_eq_ok_iff (List.cons_ne_nil _ _)).1 hweighted
    rw [hretain, List.map_singleton] at hrun
    dsimp only at hrun
    rw [restrict_singleton, select_singleton] at hrun
    obtain ⟨⟨⟩, rfl⟩ := Prod.mk.inj hrun
    exact ⟨rfl, rfl, hlength, hfinite⟩

end Draw

/-! ### Double precision -/

section F64

private theorem one_f64 : (Binary.ofNat 1 : F64).isFinite = true ∧
    (Binary.ofNat 1 : F64).units = 2 ^ 1074 ∧
      (Binary.ofNat 1 : F64).lt (.zero false) = false := by decide +kernel

private theorem zero_add_one_f64 :
    ((Binary.zero false : F64).add (.ofNat 1)).isFinite = true ∧
      ((Binary.zero false : F64).add (.ofNat 1)).le (.zero false) = false := by decide +kernel

/-- The reciprocal of a positive temperature is not infinite. -/
private theorem magnitude_recip_le {temperature : F32} (hfinite : temperature.isFinite = true)
    (hpos : temperature.le (.zero false) = false) :
    ((Binary.ofNat 1 : F64).div (temperature.convert binary64)).magnitude ≤ 1172 * 2 ^ 52 := by
  obtain ⟨-, hunits⟩ := Binary.pos_of_not_le_zero hfinite hpos
  obtain ⟨hvalue, hwide, -⟩ := F32.convert_binary64 hfinite
  have hlarge : 2 ^ 925 ≤ (temperature.convert binary64).units := by
    rw [hvalue]
    exact Nat.le_mul_of_pos_left _ hunits
  rw [Binary.div_eq_rounded_of_ne_zero one_f64.1 hwide
    (Nat.ne_of_gt (Nat.lt_of_lt_of_le (Nat.two_pow_pos _) hlarge)), one_f64.2.1]
  refine Binary.magnitude_rounded_le _ (Nat.lt_of_lt_of_le (Nat.two_pow_pos _) hlarge) ?_
  rw [F64.units_start 1171 1223 rfl, point_binary64]
  calc 2 ^ 1074 * 2 ^ 1074 = 2 ^ 2148 := two_pow_mul 1074 1074 2148 rfl
    _ = 2 ^ 1223 * 2 ^ 925 := (two_pow_mul 1223 925 2148 rfl).symm
    _ ≤ 2 ^ 1223 * (temperature.convert binary64).units := Nat.mul_le_mul_left _ hlarge

/-- A scaled logit is not infinite. -/
private theorem isFinite_scaled {temperature logit : F32} (hfinite : temperature.isFinite = true)
    (hpos : temperature.le (.zero false) = false) (hlogit : logit.isFinite = true) :
    ((logit.convert binary64).mul
      ((Binary.ofNat 1 : F64).div (temperature.convert binary64))).isFinite = true := by
  obtain ⟨hvalue, hwide, -⟩ := F32.convert_binary64 hlogit
  have hrecip := magnitude_recip_le hfinite hpos
  have hrecipFinite := Binary.isFinite_of_magnitude_le hrecip (by decide)
  have hrecipUnits := Binary.units_le_of_magnitude_le hrecip
  have hlogitUnits := (F32.units_lt_two_pow hlogit).le
  refine Binary.isFinite_of_magnitude_le (p := 1300 * 2 ^ 52)
    (Binary.magnitude_mul_le hwide hrecipFinite ?_) (by decide)
  rw [F64.units_start 1171 1223 rfl] at hrecipUnits
  rw [F64.units_start 1299 1351 rfl, hvalue, point_binary64]
  calc logit.units * 2 ^ 925 * _ ≤ 2 ^ 277 * 2 ^ 925 * 2 ^ 1223 :=
        Nat.mul_le_mul (Nat.mul_le_mul_right _ hlogitUnits) hrecipUnits
    _ = 2 ^ 1202 * 2 ^ 1223 := by rw [two_pow_mul 277 925 1202 rfl]
    _ = 2 ^ 2425 := two_pow_mul 1202 1223 2425 rfl
    _ = 2 ^ 1351 * 2 ^ 1074 := (two_pow_mul 1351 1074 2425 rfl).symm

/-- A finite word minus itself. -/
theorem sub_self_eq_zero {x : F64} (hx : x.isFinite = true) : x.sub x = .zero false := by
  have hsign : (x.negative && x.neg.negative) = false := by
    cases hn : x.negative <;> simp [Binary.neg, hn]
  rw [Binary.sub, Binary.add_eq_roundedSum hx (by rwa [Binary.isFinite_neg]),
    Binary.signedUnits_neg, add_neg_cancel, hsign, Binary.roundedSum, if_pos rfl]

variable {exp : F64 → F64} {display : F32 → String} {sampler : HostLogitSampler}
  {logits : List F32}

/-- The first token of a row weighs as much as the exponential of zero. -/
private theorem weighAll_f64 (display : F32 → String) (sampler : HostLogitSampler)
    (hexp : exp (.zero false) = .ofNat 1) {token : ℕ}
    (hlogit : (logits.getD token (.zero false)).isFinite = true) :
    ∃ candidate total, weighAll (f64Weights exp display) sampler.config.temperature
      ([token].map (unweighed (f64Weights exp display) logits)) = .ok ([candidate], total) := by
  have hweight : tokenWeight (f64Weights exp display) sampler.config.temperature logits [token]
      token = .ofNat 1 := by
    have hscaled := isFinite_scaled sampler.valid.temperature_finite
      sampler.valid.temperature_pos hlogit
    rw [tokenWeight, softmaxWeight, List.headD_cons]
    dsimp only [f64Weights]
    rw [sub_self_eq_zero hscaled, hexp]
  refine ⟨_, _, (weighAll_eq_ok_iff (List.cons_ne_nil _ _)).2 ⟨?_, ?_, rfl⟩⟩
  · intro other hother
    rw [List.mem_singleton] at hother
    subst hother
    rw [Acceptable, hweight]
    dsimp only [f64Weights]
    exact ⟨one_f64.1, one_f64.2.2⟩
  · rw [List.map_singleton, hweight]
    dsimp only [f64Weights, List.foldl_cons, List.foldl_nil]
    exact zero_add_one_f64

/-- A draw between one candidate of a finite row does not fail in double precision. -/
theorem exists_sample_of_topK_one (hexp : exp (.zero false) = .ofNat 1)
    (hk : sampler.config.topK = some 1) (hlength : logits.length = sampler.vocabSize)
    (hfinite : ∀ x ∈ logits, x.isFinite = true) :
    ∃ token, (sample (f64Weights exp display) logits).run sampler =
      (.ok token, { sampler with rng := sampler.rng.next }) := by
  obtain ⟨order, h⟩ := exists_ranking logits
  have htoken : order.headD 0 < logits.length := by
    have htake := take_kept h hk hlength
    have hmem : order.headD 0 ∈ order := by
      have hin : order.headD 0 ∈ order.take sampler.kept := by
        rw [htake]
        exact List.mem_singleton_self _
      exact List.mem_of_mem_take hin
    exact List.mem_range.1 (h.perm.mem_iff.1 hmem)
  have hlogit : (logits.getD (order.headD 0) (.zero false)).isFinite = true := by
    rw [List.getD_eq_getElem _ _ htoken]
    exact hfinite _ (List.getElem_mem htoken)
  obtain ⟨candidate, total, hweighted⟩ := weighAll_f64 display sampler hexp hlogit
  have hretain : sampler.retain (f64Weights exp display) logits = _ :=
    (retain_eq_ok_iff h).2 ⟨hlength, hfinite, _, by rwa [take_kept h hk hlength], rfl⟩
  refine ⟨candidate.token, ?_⟩
  rw [run_sample, hretain]
  dsimp only
  rw [restrict_singleton, select_singleton]

end F64

end HostLogitSampler

end NNIS
