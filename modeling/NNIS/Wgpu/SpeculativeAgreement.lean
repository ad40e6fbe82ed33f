import Mathlib.Data.List.Forall2
import NNIS.Cpu.SpeculativeRows
import NNIS.Wgpu.Speculative

/-!
# The WGPU verification of drafts is that of the CPU

The key of the kernel orders finite words as their values are ordered, so its scan of a row finds
what the scan of the CPU finds: the lowest argmax, or the first column that is not finite.

## Main results

* `orderKey_lt_iff` — the order of the keys.
* `argmaxFrom_spec` — the scan of a row.
* `WgpuGreedySpeculativeVerifierV1.verify_agreement`.
-/

set_option autoImplicit false

namespace NNIS

/-! ### Bits of a word -/

private theorem toBits_eq (x : F32) : x.toBits = x.negative.toNat * 2 ^ 31 + x.magnitude := rfl

private theorem magnitude_lt (x : F32) : x.magnitude < 2 ^ 31 := x.magnitude_lt

/-- The bits of a field of a word. -/
private theorem and_field (w low width : ℕ) :
    w &&& (2 ^ width - 1) * 2 ^ low = w / 2 ^ low % 2 ^ width * 2 ^ low := by
  have hdiv : (w &&& (2 ^ width - 1) * 2 ^ low) / 2 ^ low = w / 2 ^ low % 2 ^ width := by
    rw [Nat.and_div_two_pow, Nat.mul_div_cancel _ (Nat.two_pow_pos low),
      Nat.and_two_pow_sub_one_eq_mod]
  have hmod : (w &&& (2 ^ width - 1) * 2 ^ low) % 2 ^ low = 0 := by
    rw [Nat.and_mod_two_pow, Nat.mul_mod_left, Nat.and_zero]
  rw [← hdiv, Nat.div_mul_cancel (Nat.dvd_of_mod_eq_zero hmod)]

/-- The test of the kernel for a word that is not finite. -/
private theorem exponent_mask_iff (x : F32) :
    x.toBits &&& 0x7F800000 = 0x7F800000 ↔ x.isFinite = false := by
  have hmask := and_field x.toBits 23 8
  have hlt := magnitude_lt x
  have hfield : x.toBits / 2 ^ 23 % 2 ^ 8 = x.magnitude / 2 ^ 23 := by
    rw [toBits_eq]
    cases x.negative
    · rw [Bool.toNat_false]
      omega
    · rw [Bool.toNat_true]
      omega
  have hfinite : x.isFinite = decide (x.magnitude < 255 * 2 ^ 23) := rfl
  rw [hfield] at hmask
  rw [hfinite, decide_eq_false_iff_not]
  have hmask' : x.toBits &&& 0x7F800000 = x.magnitude / 2 ^ 23 * 2 ^ 23 := hmask
  rw [hmask']
  omega

/-- The key of a word. -/
private theorem orderKey_toBits (x : F32) : orderKey x.toBits =
    if x.magnitude = 0 then 2 ^ 31
    else if x.negative then 2 ^ 31 - 1 - x.magnitude else 2 ^ 31 + x.magnitude := by
  have hlt := magnitude_lt x
  have hlow : x.toBits &&& 0x7FFFFFFF = x.magnitude := by
    have hmask := and_field x.toBits 0 31
    rw [Nat.pow_zero, Nat.mul_one, Nat.mul_one, Nat.div_one, toBits_eq] at hmask
    rw [toBits_eq]
    refine hmask.trans ?_
    rw [Nat.mul_add_mod', Nat.mod_eq_of_lt hlt]
  have hsign (w : ℕ) : w &&& 0x80000000 = w / 2 ^ 31 % 2 * 2 ^ 31 := and_field w 31 1
  unfold orderKey
  rw [hlow]
  by_cases hzero : x.magnitude = 0
  · rw [if_pos hzero, if_pos hzero]
    rfl
  · rw [if_neg hzero, if_neg hzero]
    dsimp only
    rw [hsign, toBits_eq]
    cases x.negative
    · have hor := Nat.two_pow_add_eq_or_of_lt hlt 1
      rw [Nat.mul_one] at hor
      rw [Bool.toNat_false, Nat.zero_mul, Nat.zero_add, if_neg (by omega),
        if_neg Bool.false_ne_true, Nat.or_comm]
      exact hor.symm
    · rw [Bool.toNat_true, Nat.one_mul, if_pos (by omega), if_pos rfl]
      omega

/-- The keys of words are ordered as their values are. -/
theorem orderKey_lt_iff (x y : F32) :
    orderKey x.toBits < orderKey y.toBits ↔ x.key < y.key := by
  have hx := magnitude_lt x
  have hy := magnitude_lt y
  rw [orderKey_toBits, orderKey_toBits, Binary.key, Binary.key]
  split_ifs <;> omega

/-! ### The scan of a row -/

section

variable {ε : Type} {words : List ℕ} {base : ℕ} {row : List F32}

/-- The scan of the kernel from a column on follows that of the CPU. Before the first column the
kernel has no key; after it the key is that of the best value. -/
private theorem argmaxFrom_follows
    (hwords : ∀ (j : ℕ) (x : F32), row[j]? = some x → words[base + j]? = some x.toBits)
    (hfits : base + row.length ≤ wordLimit32) (seen rest : List F32) (hseen : seen ++ rest = row)
    (best bestKey : ℕ) (hbest : seen = [] ∧ best = 0 ∨ seen ≠ [] ∧
      ∃ x, row[best]? = some x ∧ x.isFinite = true ∧ bestKey = orderKey x.toBits) :
    (∀ i, greedyArgmaxFrom row seen.length best rest = .ok i →
      (argmaxFrom words base rest.length seen.length best bestKey : Outcome ε (ℕ × ℕ)) =
        .ok (i, noNonFinite)) ∧
    ∀ c, greedyArgmaxFrom row seen.length best rest = .error c → c < row.length ∧
      ∃ b, (argmaxFrom words base rest.length seen.length best bestKey : Outcome ε (ℕ × ℕ)) =
        .ok (b, c) := by
  induction rest generalizing seen best bestKey with
  | nil => exact ⟨fun i h => by rw [← Except.ok.inj h]; rfl, fun c h => by cases h⟩
  | cons value rest ih =>
    have hlt : seen.length < row.length := by
      rw [← hseen, List.length_append, List.length_cons]
      omega
    have hvalue : row[seen.length]? = some value := by
      rw [← hseen, List.getElem?_append_right (Nat.le_refl _), Nat.sub_self]
      rfl
    have hread : (Outcome.index words (base + seen.length) : Outcome ε ℕ) = .ok value.toBits :=
      Outcome.index_eq_ok_iff.2 (hwords _ _ hvalue)
    have hindex : (kernelU32 (base + seen.length) : Outcome ε ℕ) = .ok (base + seen.length) :=
      kernelU32_of_lt (by omega)
    rw [List.length_cons, argmaxFrom, hindex, Except.ok_bind, hread, Except.ok_bind,
      greedyArgmaxFrom]
    cases hfinite : value.isFinite with
    | false =>
      rw [if_pos ((exponent_mask_iff value).2 hfinite), if_pos Bool.not_false]
      exact ⟨(fun i h => by cases h), fun c h => by
        rw [← Except.error.inj h]
        exact ⟨hlt, best, rfl⟩⟩
    | true =>
      have hmask : ¬ value.toBits &&& 0x7F800000 = 0x7F800000 := by
        rw [exponent_mask_iff, hfinite]
        exact fun h => by cases h
      have hseen' : (seen ++ [value]) ++ rest = row := by
        rw [List.append_assoc, List.singleton_append, hseen]
      have hne : seen ++ [value] ≠ [] := List.append_ne_nil_of_right_ne_nil _ (List.cons_ne_nil _ _)
      have hnext (b k : ℕ) (h : ∃ x, row[b]? = some x ∧ x.isFinite = true ∧
        k = orderKey x.toBits) := ih (seen ++ [value]) hseen' b k (.inr ⟨hne, h⟩)
      simp only [List.length_append, List.length_singleton] at hnext
      rw [if_neg hmask, Bool.not_true, if_neg Bool.false_ne_true]
      rcases hbest with ⟨rfl, rfl⟩ | ⟨hseenNe, x, hx, hxfinite, rfl⟩
      · -- The first value is not above itself.
        have hself : value.lt value = false :=
          Bool.eq_false_iff.2 fun h => lt_irrefl _ ((Binary.lt_iff_key_lt hfinite hfinite).1 h)
        rw [List.length_nil] at hvalue hnext ⊢
        have hcolumn : 0 = 0 ∨ bestKey < orderKey value.toBits := .inl rfl
        rw [hvalue, Option.getD_some, hself, if_neg Bool.false_ne_true]
        dsimp only
        rw [if_pos hcolumn]
        exact hnext 0 (orderKey value.toBits) ⟨value, hvalue, hfinite, rfl⟩
      · have hcolumn : seen.length ≠ 0 := fun h => hseenNe (List.eq_nil_of_length_eq_zero h)
        have hkey : seen.length = 0 ∨ orderKey x.toBits < orderKey value.toBits ↔
            x.lt value = true := by
          rw [orderKey_lt_iff, Binary.lt_iff_key_lt hxfinite hfinite]
          exact ⟨fun h => h.resolve_left hcolumn, .inr⟩
        rw [hx, Option.getD_some]
        by_cases hlt' : x.lt value = true
        · rw [if_pos (hkey.2 hlt'), if_pos hlt']
          exact hnext seen.length (orderKey value.toBits) ⟨value, hvalue, hfinite, rfl⟩
        · rw [if_neg (mt hkey.1 hlt'), if_neg hlt']
          exact hnext best (orderKey x.toBits) ⟨x, hx, hxfinite, rfl⟩

/-- What the kernel finds in a row: the token of the CPU, or the column of its error. -/
private def Found (row : List F32) (found : ℕ × ℕ) : Prop :=
  (∀ token, greedyArgmax row = .ok token →
    UInt32.ofNat found.1 = token ∧ found.2 = noNonFinite) ∧
  ∀ column, greedyArgmax row = .error column → found.2 = column ∧ column < noNonFinite

/-- The scan of a row finds what the CPU finds. -/
theorem argmaxFrom_spec (words : List ℕ) (base : ℕ) (row : List F32)
    (hwords : ∀ (j : ℕ) (x : F32), row[j]? = some x → words[base + j]? = some x.toBits)
    (hfits : base + row.length ≤ wordLimit32) (hrow : row.length < wordLimit32) :
    ∃ found, (argmaxFrom words base row.length 0 0 0 : Outcome ε (ℕ × ℕ)) = .ok found ∧
      Found row found := by
  obtain ⟨hok, herror⟩ := argmaxFrom_follows (ε := ε) hwords hfits [] row rfl 0 0
    (.inl ⟨rfl, rfl⟩)
  rw [List.length_nil] at hok herror
  cases hscan : greedyArgmaxFrom row 0 0 row with
  | ok i =>
    refine ⟨(i, noNonFinite), hok i hscan, fun token h => ?_, fun column h => ?_⟩
    · rw [greedyArgmax, hscan] at h
      exact ⟨Except.ok.inj h, rfl⟩
    · rw [greedyArgmax, hscan] at h
      cases h
  | error c =>
    obtain ⟨hlt, b, hrun⟩ := herror c hscan
    refine ⟨(b, c), hrun, fun token h => ?_, fun column h => ?_⟩
    · rw [greedyArgmax, hscan] at h
      cases h
    · rw [greedyArgmax, hscan] at h
      obtain rfl := Except.error.inj h
      refine ⟨rfl, ?_⟩
      have hsentinel : noNonFinite = wordLimit32 - 1 := rfl
      simp only [wordLimit32] at hrow hsentinel
      omega

end

/-! ### Tokens -/

/-- The error of the device for an error of the CPU. -/
def WgpuSpeculativeError.ofCpu : CpuSpeculativeError → WgpuSpeculativeError
  | .contract error => .contract error
  | .zeroVocabulary => .zeroVocabulary
  | .tokenOutOfVocabulary index token => .tokenOutOfVocabulary index token
  | .logitsLengthMismatch expected actual => .logitsLengthMismatch expected actual
  | .nonFiniteLogit row column => .nonFiniteLogit row column
  | .hostIndexOverflow => .hostIndexOverflow

/-- The tokens that the host takes from the result of the kernel are those of the CPU, and so is the
first error. The host reads the low 32 bits of a word. -/
private theorem tokensOfResult_spec {rows : List (List F32)} {found : List (ℕ × ℕ)}
    (h : List.Forall₂ Found rows found) (first : ℕ) :
    (∀ tokens, targetTokensFrom first rows = .ok tokens →
      tokensOfResult first ((found.flatMap fun pair => [pair.1, pair.2]).map (· % wordLimit32)) =
        .ok tokens) ∧
    ∀ e, targetTokensFrom first rows = .error e →
      tokensOfResult first ((found.flatMap fun pair => [pair.1, pair.2]).map (· % wordLimit32)) =
        .error (.error (.ofCpu e)) := by
  induction h generalizing first with
  | nil => exact ⟨fun tokens h => by rw [← Except.ok.inj h]; rfl, fun e h => by cases h⟩
  | @cons row pair rows found hfound hrest ih =>
    obtain ⟨hok, herror⟩ := ih (first + 1)
    rw [List.flatMap_cons, targetTokensFrom]
    change (∀ tokens, _ → tokensOfResult first (pair.1 % wordLimit32 :: pair.2 % wordLimit32 ::
      (found.flatMap fun pair => [pair.1, pair.2]).map _) = _) ∧ ∀ e, _ → tokensOfResult first
        (pair.1 % wordLimit32 :: pair.2 % wordLimit32 ::
          (found.flatMap fun pair => [pair.1, pair.2]).map _) = _
    rw [tokensOfResult]
    cases hrow : greedyArgmax row with
    | error column =>
      obtain ⟨hcolumn, hlt⟩ := hfound.2 column hrow
      have hmod : pair.2 % wordLimit32 = column := by
        rw [hcolumn]
        exact Nat.mod_eq_of_lt (hlt.trans (by decide))
      refine ⟨(fun tokens h => by cases h), fun e h => ?_⟩
      rw [← Except.error.inj h, hmod, if_pos hlt.ne]
      rfl
    | ok token =>
      obtain ⟨htoken, hnone⟩ := hfound.1 token hrow
      have hmod : ¬ pair.2 % wordLimit32 ≠ noNonFinite := by
        rw [hnone]
        decide
      have htoken' : UInt32.ofNat (pair.1 % wordLimit32) = token :=
        (UInt32.ofNat_mod_size (x := pair.1)).trans htoken
      rw [if_neg hmod, htoken']
      cases hrows : targetTokensFrom (first + 1) rows with
      | error e =>
        refine ⟨(fun tokens h => by cases h), fun e' h => ?_⟩
        rw [← Except.error.inj h, herror e hrows]
        rfl
      | ok tokens =>
        refine ⟨fun tokens' h => ?_, fun e' h => by cases h⟩
        rw [hok tokens hrows, ← Except.ok.inj h]
        rfl

/-! ### The kernel -/

/-- The words of bytes are the bits of their values. -/
theorem wordsOfLeBytes_eq (data : List UInt8) :
    wordsOfLeBytes data = (F32.words data).map Binary.toBits := by
  fun_induction wordsOfLeBytes data with
  | case1 b₀ b₁ b₂ b₃ rest ih =>
    have h0 := b₀.toNat_lt
    have h1 := b₁.toNat_lt
    have h2 := b₂.toNat_lt
    have h3 := b₃.toNat_lt
    have hbits : (F32.ofLeBytes b₀ b₁ b₂ b₃).toBits =
        b₀.toNat + 2 ^ 8 * (b₁.toNat + 2 ^ 8 * (b₂.toNat + 2 ^ 8 * b₃.toNat)) :=
      F32.toBits_ofBits (by omega)
    rw [F32.words, List.map_cons, hbits, ih]
  | case2 data h =>
    rcases data with - | ⟨b₀, - | ⟨b₁, - | ⟨b₂, - | ⟨b₃, rest⟩⟩⟩⟩
    · rfl
    · rfl
    · rfl
    · rfl
    · exact (h b₀ b₁ b₂ b₃ rest rfl).elim

/-- Replacing two elements in their places writes them. -/
private theorem modify_modify_eq {output : List ℕ} {i : ℕ} (h : i * 2 + 2 ≤ output.length)
    (a b : ℕ) : (output.modify (2 * i) fun _ => a).modify (2 * i + 1) (fun _ => b) =
      writeRegion output (i * 2) [a, b] := by
  refine List.ext_getElem? fun j => ?_
  have hsize : i * 2 + [a, b].length ≤ output.length := h
  rw [getElem?_writeRegion hsize]
  simp only [List.length_cons, List.length_nil]
  rcases Nat.lt_trichotomy j (2 * i) with hlt | rfl | hgt
  · rw [List.getElem?_modify_ne _ _ (by omega), List.getElem?_modify_ne _ _ (by omega),
      if_neg (by omega)]
  · have hfirst : 2 * i - i * 2 = 0 := by omega
    rw [List.getElem?_modify_ne _ _ (by omega), List.getElem?_modify_eq, if_pos (by omega), hfirst,
      List.getElem?_eq_getElem (by omega)]
    rfl
  · rcases eq_or_ne j (2 * i + 1) with rfl | hne
    · have hsecond : 2 * i + 1 - i * 2 = 1 := by omega
      rw [List.getElem?_modify_eq, List.getElem?_modify_ne _ _ (by omega), if_pos (by omega),
        hsecond, List.getElem?_eq_getElem (by omega)]
      rfl
    · rw [List.getElem?_modify_ne _ _ (by omega), List.getElem?_modify_ne _ _ (by omega),
        if_neg (by omega)]

variable {rows vocab : ℕ} {logits : List F32}

/-- The rows of logits of the expected length. -/
private theorem chunksExact_eq (hvocab : 0 < vocab) (hlength : logits.length = rows * vocab) :
    chunksExact vocab logits = (List.range rows).map fun row =>
      region logits (row * vocab) vocab := by
  rw [chunksExact, hlength, Nat.mul_div_cancel _ hvocab]
  rfl

/-- The dispatch writes what the kernel finds in each row. -/
private theorem dispatch_argmaxMain (hvocab : 0 < vocab) (hvocab' : vocab < wordLimit32)
    (hlength : logits.length = rows * vocab) (hfits : rows * vocab < wordLimit32)
    (hpairs : 2 * rows < wordLimit32) (scheduler : Scheduler) :
    ∃ found, List.Forall₂ Found (chunksExact vocab logits) found ∧
      (dispatch (argmaxMain [rows % wordLimit32, vocab] (logits.map Binary.toBits))
        (scheduler.order 0 ((rows + (64 - 1)) / 64 * 64)) (List.replicate (rows * 2) 0) :
          Outcome WgpuSpeculativeError (List ℕ)) =
        .ok (found.flatMap fun pair => [pair.1, pair.2]) := by
  set words := logits.map Binary.toBits with hwordsDef
  have hrows : rows < wordLimit32 := Nat.lt_of_le_of_lt (Nat.le_mul_of_pos_right _ hvocab) hfits
  have hrow (i : ℕ) (hi : i < rows) : i * vocab + vocab ≤ rows * vocab := by
    rw [← Nat.succ_mul]
    exact Nat.mul_le_mul_right _ hi
  have hregion (i : ℕ) (hi : i < rows) : (region logits (i * vocab) vocab).length = vocab :=
    length_region (by rw [hlength]; exact hrow i hi)
  have hscan (i : ℕ) (hi : i < rows) : ∃ found,
      (argmaxFrom words (i * vocab) vocab 0 0 0 : Outcome WgpuSpeculativeError (ℕ × ℕ)) =
        .ok found ∧ Found (region logits (i * vocab) vocab) found := by
    have hspec := argmaxFrom_spec (ε := WgpuSpeculativeError) words (i * vocab)
      (region logits (i * vocab) vocab)
    rw [hregion i hi] at hspec
    refine hspec (fun j x hx => ?_) ((hrow i hi).trans hfits.le) hvocab'
    have hj : j < vocab := by
      have hj := (List.getElem?_eq_some_iff.1 hx).1
      rwa [hregion i hi] at hj
    rw [getElem?_region _ hj] at hx
    rw [hwordsDef, List.getElem?_map, hx, Option.map_some]
  -- What the kernel finds in each row.
  set found : ℕ → ℕ × ℕ := fun i => ((argmaxFrom words (i * vocab) vocab 0 0 0 :
    Outcome WgpuSpeculativeError (ℕ × ℕ)).toOption.getD (0, 0)) with hfoundDef
  have hfound (i : ℕ) (hi : i < rows) :
      (argmaxFrom words (i * vocab) vocab 0 0 0 : Outcome WgpuSpeculativeError (ℕ × ℕ)) =
        .ok (found i) ∧ Found (region logits (i * vocab) vocab) (found i) := by
    obtain ⟨pair, hrun, hpair⟩ := hscan i hi
    have hvalue : found i = pair := by
      rw [hfoundDef]
      simp only [hrun]
      rfl
    rw [hvalue]
    exact ⟨hrun, hpair⟩
  refine ⟨(List.range rows).map found, ?_, ?_⟩
  · rw [chunksExact_eq hvocab hlength, List.forall₂_map_left_iff, List.forall₂_map_right_iff,
      List.forall₂_same]
    exact fun i hi => (hfound i (List.mem_range.1 hi)).2
  · rw [List.flatMap_map]
    refine dispatch_blocks (fun i => [(found i).1, (found i).2]) (fun _ _ => rfl)
      (fun output houtput i => ?_) (show rows ≤ (rows + (64 - 1)) / 64 * 64 by omega)
      (scheduler.perm 0 _) List.length_replicate
    simp only [argmaxMain, Outcome.index, List.getElem?_cons_zero, List.getElem?_cons_succ,
      Except.ok_bind, ge_iff_le, Nat.mod_eq_of_lt hrows]
    rcases Nat.lt_or_ge i rows with hi | hi
    · have hbase : i * vocab < wordLimit32 :=
        Nat.lt_of_le_of_lt (Nat.le_of_add_right_le (hrow i hi)) hfits
      have hfit : i * 2 + 2 ≤ output.length := by omega
      rw [if_neg (Nat.not_le.2 hi), if_pos hi, kernelU32_of_lt hbase, Except.ok_bind,
        (hfound i hi).1, Except.ok_bind, ← modify_modify_eq hfit,
        kernelU32_of_lt (by omega), Except.ok_bind, kernelU32_of_lt (by omega), Except.ok_bind]
      have hfirst : (Outcome.modifyAt output (2 * i) fun _ => (found i).1 :
          Outcome WgpuSpeculativeError (List ℕ)) =
            .ok (output.modify (2 * i) fun _ => (found i).1) :=
        Outcome.modifyAt_eq_ok_iff.2 ⟨by omega, rfl⟩
      rw [hfirst, Except.ok_bind]
      exact Outcome.modifyAt_eq_ok_iff.2 ⟨by rw [List.length_modify]; omega, rfl⟩
    · rw [if_pos hi, if_neg (Nat.not_lt.2 hi)]
      rfl

/-! ### Verification -/

namespace WgpuGreedySpeculativeVerifierV1

/-- The verifier of the CPU for the same vocabulary. -/
def cpu (verifier : WgpuGreedySpeculativeVerifierV1) : CpuGreedySpeculativeVerifierV1 :=
  ⟨verifier.vocabSize, verifier.vocabSize_pos, verifier.vocabSize_lt⟩

/-- The values that a step needs. -/
def stepValues (verifier : WgpuGreedySpeculativeVerifierV1) (draft : SpeculativeDraftV1)
    (schedule : ConfidenceScheduleV1) : ℕ :=
  (schedule.scheduledLen draft + 1) * verifier.vocabSize

/-- A result of the device is that of the CPU: the same verification and target tokens, or the same
error. -/
def Agrees (verifier : WgpuGreedySpeculativeVerifierV1) (draft : SpeculativeDraftV1)
    (schedule : ConfidenceScheduleV1) (logits : List F32)
    (result : Outcome WgpuSpeculativeError WgpuSpeculativeOutcomeV1) : Prop :=
  (∀ e, verifier.cpu.verify draft schedule logits = .error e →
    result = .error (.error (.ofCpu e))) ∧
  ∀ verification, verifier.cpu.verify draft schedule logits = .ok verification →
    ∃ targetTokens, targetTokensFrom 0 (chunksExact verifier.vocabSize logits) = .ok targetTokens ∧
      result = .ok ⟨verification, targetTokens, wgslGreedyArgmaxContractVersion⟩

variable {verifier : WgpuGreedySpeculativeVerifierV1} {draft : SpeculativeDraftV1}
  {schedule : ConfidenceScheduleV1}

private theorem stepValues_pos : 0 < verifier.stepValues draft schedule :=
  Nat.mul_pos (Nat.succ_pos _) verifier.vocabSize_pos

/-- A draft with a token outside the vocabulary is refused as by the CPU. -/
private theorem agrees_of_token {index : ℕ} {logits : List F32}
    (h : draft.tokens.findIdx?
      (fun token => decide (verifier.vocabSize ≤ token.toNat)) = some index) :
    verifier.Agrees draft schedule logits
      (.raise (.tokenOutOfVocabulary index (draft.tokens.getD index 0))) := by
  have hcpu := CpuGreedySpeculativeVerifierV1.verify_of_token verifier.cpu draft schedule
    logits h
  refine ⟨fun e he => ?_, fun _ hok => nomatch hcpu.symm.trans hok⟩
  rw [← Except.error.inj (hcpu.symm.trans he)]
  rfl

/-- Logits of another length are refused as by the CPU. -/
private theorem agrees_of_length {logits : List F32}
    (htokens : draft.tokens.findIdx?
      (fun token => decide (verifier.vocabSize ≤ token.toNat)) = none)
    (hlength : logits.length ≠ verifier.stepValues draft schedule) :
    verifier.Agrees draft schedule logits
      (.raise (.logitsLengthMismatch (verifier.stepValues draft schedule) logits.length)) := by
  have hcpu := CpuGreedySpeculativeVerifierV1.verify_of_length verifier.cpu draft schedule
    logits htokens hlength
  refine ⟨fun e he => ?_, fun _ hok => nomatch hcpu.symm.trans hok⟩
  rw [← Except.error.inj (hcpu.symm.trans he)]
  rfl

/-- The kernel is dispatched and its result is read back, unless something is refused. -/
private theorem argmax_delivers {granted : Prop} (scheduler : Scheduler) {device : WgpuDevice}
    {buffer : WgpuBuffer} {rows : ℕ}
    (hlength : (F32.words buffer.buffer).length = rows * verifier.vocabSize)
    (hfits : rows * verifier.vocabSize < wordLimit32) (hrows : rows ≤ 1025)
    (hruns : device.Runs 64 (bindingBytes buffer.len rows) rows) :
    Delivers granted (RefusedAs .portable) (verifier.argmax scheduler device buffer rows)
      fun words => ∃ found,
        List.Forall₂ Found (chunksExact verifier.vocabSize (F32.words buffer.buffer)) found ∧
          words = (found.flatMap fun pair => [pair.1, pair.2]).map (· % wordLimit32) := by
  obtain ⟨found, hfound, hdispatch⟩ := dispatch_argmaxMain verifier.vocabSize_pos
    verifier.vocabSize_lt hlength hfits (by simp only [wordLimit32]; omega) scheduler
  set result := found.flatMap fun pair => [pair.1, pair.2] with hresult
  have hbytes : (result.flatMap (leBytes 4)).length = rows * 8 := by
    have hfoundLength : found.length = rows := by
      rw [← hfound.length_eq, chunksExact_eq verifier.vocabSize_pos hlength, List.length_map,
        List.length_range]
    have hpairs : result.length = found.length * 2 := by
      rw [hresult, List.length_flatMap]
      simp
    rw [length_flatMap_leBytes, hpairs, hfoundLength]
    omega
  rw [argmax]
  refine (wrap_delivers (popScopes_delivers _)).bind fun _ _ => ?_
  rw [hruns.artifact, Outcome.wrap_ok, Fallible.ofExcept_ok_bind, hruns.groups, Outcome.wrap_ok,
    Fallible.ofExcept_ok_bind, wordsOfLeBytes_eq, hdispatch, Fallible.ofExcept_ok_bind]
  refine (wrap_delivers (popScopes_delivers _)).bind fun _ _ => ?_
  refine (wrap_delivers (WgpuQueue.readWgpu_delivers (by rw [hbytes]; omega)
    (by rw [hbytes, wordLimit]; omega) (by rw [hbytes, Nat.zero_add]))).bind fun bytes hread =>
      Delivers.pure ⟨found, hfound, ?_⟩
  rw [hread, ← hbytes, region_zero, wordsOfLeBytes_flatMap]

/-- The device and the host verify the logits of a buffer as the CPU does, unless something is
refused. -/
private theorem run_yields (scheduler : Scheduler) {device : WgpuDevice} {buffer : WgpuBuffer}
    (howner : buffer.deviceToken = device.token)
    (husage : buffer.descriptor.usages.contains .storage = true)
    (htokens : draft.tokens.findIdx?
      (fun token => decide (verifier.vocabSize ≤ token.toNat)) = none)
    (hlength : (F32.words buffer.buffer).length = verifier.stepValues draft schedule)
    (hfits : verifier.stepValues draft schedule < wordLimit32)
    (hruns : device.Runs 64 (bindingBytes buffer.len (schedule.scheduledLen draft + 1))
      (schedule.scheduledLen draft + 1)) (answers : WgpuAnswers) :
    answers.Yields .portable (verifier.run scheduler device draft schedule buffer
      (schedule.scheduledLen draft + 1) (verifier.stepValues draft schedule))
        (verifier.Agrees draft schedule (F32.words buffer.buffer)) := by
  have hcpu := CpuGreedySpeculativeVerifierV1.verify_of_targets verifier.cpu draft
    schedule _ htokens
    hlength
  have hscheduled : schedule.scheduledLen draft ≤ 1024 := schedule.scheduledLen_le_max draft
  rw [run, Outcome.require_of _ hfits, Fallible.ofExcept_ok_bind, WgpuQueue.checkOwner,
    Outcome.require_of _ howner, Outcome.wrap_ok, Fallible.ofExcept_ok_bind,
    WgpuHeader.requireUsage, Outcome.require_of _ husage, Outcome.wrap_ok,
    Fallible.ofExcept_ok_bind]
  refine .bind (argmax_delivers scheduler hlength hfits (by omega) hruns) ?_
  rintro words answers' ⟨found, hfound, rfl⟩
  refine .inl ?_
  obtain ⟨hok, herror⟩ := tokensOfResult_spec hfound 0
  have htargets : targetTokensFrom 0
    (chunksExact verifier.cpu.vocabSize (F32.words buffer.buffer)) =
      targetTokensFrom 0 (chunksExact verifier.vocabSize (F32.words buffer.buffer)) := rfl
  rw [htargets] at hcpu
  rw [Fallible.run_ofExcept, Agrees, hcpu, ofResult]
  cases htokens' : targetTokensFrom 0
    (chunksExact verifier.vocabSize (F32.words buffer.buffer)) with
  | error e =>
    rw [herror e htokens']
    exact ⟨fun e' he => by rw [← Except.error.inj he]; rfl, fun _ h => by cases h⟩
  | ok targetTokens =>
    rw [hok targetTokens htokens', Except.ok_bind]
    dsimp only
    cases hverify : verifyScheduledDraft draft schedule targetTokens with
    | error e => exact ⟨fun e' he => by rw [← Except.error.inj he]; rfl, fun _ h => by cases h⟩
    | ok verification =>
      exact ⟨(fun e he => by cases he), fun _ h =>
        ⟨targetTokens, rfl, by rw [← Except.ok.inj h]; rfl⟩⟩

private theorem findIdx?_tokens (h : ∀ token ∈ draft.tokens, token.toNat < verifier.vocabSize) :
    draft.tokens.findIdx? (fun token => decide (verifier.vocabSize ≤ token.toNat)) = none := by
  rw [List.findIdx?_eq_none_iff]
  exact fun token ht => decide_eq_false (Nat.not_le.2 (h token ht))

private theorem expectedValues_eq
    (h : draft.tokens.findIdx? (fun token => decide (verifier.vocabSize ≤ token.toNat)) = none) :
    verifier.expectedValues draft schedule =
      .ok (schedule.scheduledLen draft + 1, verifier.stepValues draft schedule) := by
  have hvalues : checkedMul (schedule.scheduledLen draft + 1) verifier.vocabSize =
      some (verifier.stepValues draft schedule) :=
    checkedMul_of_lt (CpuGreedySpeculativeVerifierV1.expected_lt verifier.cpu draft schedule)
  simp only [expectedValues, h, hvalues]
  rfl

private theorem tokens_of_none
    (h : draft.tokens.findIdx? (fun token => decide (verifier.vocabSize ≤ token.toNat)) = none) :
    ∀ token ∈ draft.tokens, token.toNat < verifier.vocabSize := by
  rw [List.findIdx?_eq_none_iff] at h
  exact fun token ht => Nat.not_le.1 (of_decide_eq_false (h token ht))

/-- What the verifier needs of the device: a buffer of the logits that it admits, and the kernel. -/
structure Fits (verifier : WgpuGreedySpeculativeVerifierV1) (draft : SpeculativeDraftV1)
    (schedule : ConfidenceScheduleV1) (device : WgpuDevice) : Prop where
  admits : device.Admits (verifier.stepValues draft schedule * 4)
  runs : device.Runs 64 (bindingBytes (verifier.stepValues draft schedule * 4)
    (schedule.scheduledLen draft + 1)) (schedule.scheduledLen draft + 1)

/-- An admitted buffer has fewer values than the indices of the device reach. -/
private theorem stepValues_lt {device : WgpuDevice}
    (h : verifier.stepValues draft schedule * 4 ≤ device.maxBufferBytes) :
    verifier.stepValues draft schedule < wordLimit32 := by
  have hbinding := device.limits.maxStorageBufferBindingSize_lt
  have hle := h.trans (Nat.min_le_right _ _)
  simp only [wordLimit32]
  omega

private theorem contains_logitsUsages :
    logitsUsages.contains .copyDst = true ∧ logitsUsages.contains .storage = true := by decide

/-- The descriptor of uploaded logits. -/
private def logitsDesc (logits : List F32) : BufferDesc :=
  ⟨(F32.bytes logits).length, logitsUsages, .deviceLocal⟩

/-- Logits that pass the checks of the host are uploaded. -/
private theorem verifyHost_eq {scheduler : Scheduler} {device : WgpuDevice} {logits : List F32}
    (htokens : draft.tokens.findIdx?
      (fun token => decide (verifier.vocabSize ≤ token.toNat)) = none)
    (hlength : logits.length = verifier.stepValues draft schedule) :
    verifier.verifyHost scheduler device draft schedule logits = (do
      let buffer ← (device.upload (logitsDesc logits) (F32.bytes logits)).wrap .portable
      verifier.run scheduler device draft schedule buffer (schedule.scheduledLen draft + 1)
        (verifier.stepValues draft schedule)) := by
  have hpos : 0 < verifier.stepValues draft schedule := stepValues_pos
  have hnew : BufferDesc.new (F32.bytes logits).length logitsUsages .deviceLocal =
      .ok (logitsDesc logits) :=
    BufferDesc.new_of_ne _ (by rw [F32.length_bytes]; omega) (by decide)
  rw [verifyHost, expectedValues_eq htokens, Fallible.ofExcept_ok_bind]
  dsimp only
  rw [Outcome.require_of _ hlength, Fallible.ofExcept_ok_bind, hnew, Outcome.wrap_ok,
    Fallible.ofExcept_ok_bind]

/-- A buffer of the device that holds given logits. -/
private structure HoldsLogits (device : WgpuDevice) (buffer : WgpuBuffer) (logits : List F32) :
    Prop where
  owner : buffer.deviceToken = device.token
  usage : buffer.descriptor.usages.contains .storage = true
  len : buffer.len = logits.length * 4
  words : F32.words buffer.buffer = logits

private theorem upload_logits_delivers {granted : Prop} {device : WgpuDevice} {logits : List F32}
    (hlogits : logits ≠ []) (hadmits : device.Admits (logits.length * 4)) :
    Delivers granted (RefusedAs WgpuSpeculativeError.portable)
      ((device.upload (logitsDesc logits) (F32.bytes logits)).wrap .portable)
      fun buffer => HoldsLogits device buffer logits := by
  have hbytes : (F32.bytes logits).length = logits.length * 4 := F32.length_bytes _
  have hpos := List.length_pos_of_ne_nil hlogits
  refine (wrap_delivers (WgpuDevice.upload_delivers rfl (List.ne_nil_of_length_pos (by omega))
    contains_logitsUsages.1 (show MemoryClass.deviceLocal ≠ .host from nofun)
    (hbytes ▸ hadmits))).mono fun buffer hbuffer => ?_
  obtain ⟨hheader, hlogical⟩ := hbuffer
  have hlen : buffer.len = logits.length * 4 := by
    rw [hheader, WgpuHeader.len, ← hbytes]
    rfl
  refine ⟨by rw [hheader], by rw [hheader]; exact contains_logitsUsages.2, hlen, ?_⟩
  rw [← WgpuBuffer.logical_bytes_eq (by rw [hlen, Nat.mul_mod_left]), hlogical, F32.words_bytes]

private theorem ne_nil_of_stepValues {logits : List F32}
    (hlength : logits.length = verifier.stepValues draft schedule) : logits ≠ [] :=
  List.ne_nil_of_length_pos (hlength ▸ stepValues_pos)

private theorem verifyHost_yields {scheduler : Scheduler} {device : WgpuDevice} {logits : List F32}
    (hfits : (∀ token ∈ draft.tokens, token.toNat < verifier.vocabSize) →
      logits.length = verifier.stepValues draft schedule → verifier.Fits draft schedule device)
    (answers : WgpuAnswers) :
    answers.Yields .portable (verifier.verifyHost scheduler device draft schedule logits)
      (verifier.Agrees draft schedule logits) := by
  cases htokens : draft.tokens.findIdx?
    (fun token => decide (verifier.vocabSize ≤ token.toNat)) with
  | some index =>
    refine .inl ?_
    have hexpected : verifier.expectedValues draft schedule =
        .raise (.tokenOutOfVocabulary index (draft.tokens.getD index 0)) := by
      simp only [expectedValues, htokens]
    rw [verifyHost, hexpected]
    exact agrees_of_token htokens
  | none =>
    by_cases hlength : logits.length = verifier.stepValues draft schedule
    · obtain ⟨hadmits, hruns⟩ := hfits (tokens_of_none htokens) hlength
      rw [verifyHost_eq htokens hlength]
      refine .bind (upload_logits_delivers (ne_nil_of_stepValues hlength) (hlength ▸ hadmits))
        fun buffer answers' hbuffer => ?_
      have hrun := run_yields scheduler hbuffer.owner hbuffer.usage htokens
        (by rw [hbuffer.words]; exact hlength) (stepValues_lt hadmits.1)
        (by rw [hbuffer.len, hlength]; exact hruns) answers'
      rwa [hbuffer.words] at hrun
    · rw [verifyHost, expectedValues_eq htokens, Fallible.ofExcept_ok_bind]
      dsimp only
      rw [Outcome.require_of_not _ hlength]
      exact .inl (agrees_of_length htokens hlength)

private theorem expectedBytes_eq (verifier : WgpuGreedySpeculativeVerifierV1)
    (draft : SpeculativeDraftV1) (schedule : ConfidenceScheduleV1) :
    checkedMul (verifier.stepValues draft schedule) 4 =
      some (verifier.stepValues draft schedule * 4) := by
  have hscheduled : schedule.scheduledLen draft ≤ 1024 := schedule.scheduledLen_le_max draft
  refine checkedMul_of_lt ?_
  calc (schedule.scheduledLen draft + 1) * verifier.vocabSize * 4
      ≤ 1025 * 2 ^ 32 * 4 :=
        Nat.mul_le_mul_right _ (Nat.mul_le_mul (by omega) verifier.vocabSize_lt.le)
    _ < wordLimit := by decide

private theorem verify_yields {scheduler : Scheduler} {device : WgpuDevice} {buffer : WgpuBuffer}
    (howner : buffer.deviceToken = device.token)
    (husage : buffer.descriptor.usages.contains .storage = true) (haligned : buffer.len % 4 = 0)
    (hle : buffer.len ≤ device.maxBufferBytes)
    (hruns : (∀ token ∈ draft.tokens, token.toNat < verifier.vocabSize) →
      buffer.len = verifier.stepValues draft schedule * 4 →
        device.Runs 64 (bindingBytes buffer.len (schedule.scheduledLen draft + 1))
          (schedule.scheduledLen draft + 1))
    (answers : WgpuAnswers) :
    answers.Yields .portable (verifier.verify scheduler device draft schedule buffer)
      (verifier.Agrees draft schedule (F32.words buffer.logical.bytes)) := by
  have hlength : (F32.words buffer.buffer).length = buffer.len / 4 := by
    rw [F32.length_words, ← WgpuBuffer.logical_bytes_eq haligned, WgpuBuffer.logical,
      List.length_take_of_le buffer.len_le]
  rw [WgpuBuffer.logical_bytes_eq haligned]
  cases htokens : draft.tokens.findIdx?
    (fun token => decide (verifier.vocabSize ≤ token.toNat)) with
  | some index =>
    refine .inl ?_
    have hexpected : verifier.expectedValues draft schedule =
        .raise (.tokenOutOfVocabulary index (draft.tokens.getD index 0)) := by
      simp only [expectedValues, htokens]
    rw [verify, hexpected]
    exact agrees_of_token htokens
  | none =>
    rw [verify, expectedValues_eq htokens, Fallible.ofExcept_ok_bind]
    dsimp only
    rw [expectedBytes_eq verifier draft schedule, Outcome.okOr, Fallible.ofExcept_ok_bind]
    by_cases hlen : buffer.len = verifier.stepValues draft schedule * 4
    · rw [Outcome.require_of _ hlen, Fallible.ofExcept_ok_bind]
      exact run_yields scheduler howner husage htokens
        (by rw [hlength, hlen, Nat.mul_div_cancel _ (by decide)]) (stepValues_lt (hlen ▸ hle))
        (hruns (tokens_of_none htokens) hlen) answers
    · rw [Outcome.require_of_not _ hlen, if_pos haligned, ← hlength]
      exact .inl (agrees_of_length htokens (by omega))

/-- The device refuses logits that it does not admit. -/
private theorem verifyHost_of_not_admits {scheduler : Scheduler} {device : WgpuDevice}
    {logits : List F32} (htokens : ∀ token ∈ draft.tokens, token.toNat < verifier.vocabSize)
    (hlength : logits.length = verifier.stepValues draft schedule)
    (hadmits : ¬ device.Admits (verifier.stepValues draft schedule * 4)) (answers : WgpuAnswers) :
    ∃ text, (verifier.verifyHost scheduler device draft schedule logits).run answers =
      (Outcome.raise (.portable (.unsupported text)), answers) := by
  have hpos : 0 < verifier.stepValues draft schedule := stepValues_pos
  have hbytes : (F32.bytes logits).length = verifier.stepValues draft schedule * 4 := by
    rw [F32.length_bytes, hlength]
  obtain ⟨text, hadmit⟩ := @WgpuDevice.admitBuffer_of_not_admits device (logitsDesc logits)
    (show (F32.bytes logits).length ≠ 0 by omega) (show logitsUsages.isEmpty = false by decide)
    (show MemoryClass.deviceLocal ≠ .host from nofun)
    (show ¬ device.Admits (F32.bytes logits).length by rwa [hbytes])
  refine ⟨text, ?_⟩
  rw [verifyHost_eq (findIdx?_tokens htokens) hlength, WgpuDevice.upload, WgpuDevice.createBuffer,
    hadmit]
  rfl

/-- A kernel that the device does not run is refused by its limits, if nothing is refused before. -/
private theorem argmax_of_not_runs {scheduler : Scheduler} {device : WgpuDevice}
    {buffer : WgpuBuffer} {rows : ℕ} (h : ¬ device.Runs 64 (bindingBytes buffer.len rows) rows)
    (answers : WgpuAnswers) :
    ∃ e answers', (verifier.argmax scheduler device buffer rows).run answers =
      (.error (.error (.portable e)), answers') := by
  have hallocation : Delivers False (RefusedAs WgpuSpeculativeError.portable)
      ((popScopes "WGPU greedy argmax allocation").wrap .portable) fun _ => True :=
    wrap_delivers (popScopes_delivers _)
  rw [argmax]
  rcases hallocation.run_cases (show False → answers.Grants from nofun) with
    ⟨_, answers', hrun, -⟩ | ⟨_, answers', hrun, ⟨e, -, rfl⟩, -⟩
  · rw [Fallible.run_bind_ok hrun]
    rcases device.artifact_cases 64 (bindingBytes buffer.len rows) with hartifact | ⟨e, he⟩
    · rcases device.groups_cases rows 64 with hgroups | ⟨e, he⟩
      · exact absurd ⟨hartifact, hgroups⟩ h
      · rw [hartifact, Outcome.wrap_ok, Fallible.ofExcept_ok_bind, he]
        exact ⟨e, answers', rfl⟩
    · rw [he]
      exact ⟨e, answers', rfl⟩
  · exact ⟨e, answers', Fallible.run_bind_error hrun _⟩

/-- Whatever the device, an outcome that is not that of the CPU is an error of the device. -/
private theorem verifyHost_portable (scheduler : Scheduler) (device : WgpuDevice)
    (logits : List F32) (answers : WgpuAnswers) :
    verifier.Agrees draft schedule logits
        ((verifier.verifyHost scheduler device draft schedule logits).run answers).1 ∨
      ∃ e, ((verifier.verifyHost scheduler device draft schedule logits).run answers).1 =
        .error (.error (.portable e)) := by
  by_cases hfits : (∀ token ∈ draft.tokens, token.toNat < verifier.vocabSize) →
      logits.length = verifier.stepValues draft schedule → verifier.Fits draft schedule device
  · rcases verifyHost_yields hfits answers with h | ⟨-, _, he, e, -, rfl⟩
    · exact .inl h
    · exact .inr ⟨e, he⟩
  · simp only [Classical.not_imp] at hfits
    obtain ⟨htokens, hlength, hfits⟩ := hfits
    by_cases hadmits : device.Admits (verifier.stepValues draft schedule * 4)
    · have hupload := @upload_logits_delivers False device logits (ne_nil_of_stepValues hlength)
        (hlength ▸ hadmits)
      rw [verifyHost_eq (findIdx?_tokens htokens) hlength]
      rcases hupload.run_cases (show False → answers.Grants from nofun) with
        ⟨buffer, answers', hrun, hbuffer, -⟩ | ⟨_, answers', hrun, ⟨e, -, rfl⟩, -⟩
      · have hnot : ¬ device.Runs 64 (bindingBytes buffer.len (schedule.scheduledLen draft + 1))
            (schedule.scheduledLen draft + 1) := by
          rw [hbuffer.len, hlength]
          exact fun hruns => hfits ⟨hadmits, hruns⟩
        obtain ⟨e, answers'', hargmax⟩ := @argmax_of_not_runs verifier scheduler _ _ _ hnot answers'
        refine .inr ⟨e, ?_⟩
        rw [Fallible.run_bind_ok hrun, run, Outcome.require_of _ (stepValues_lt hadmits.1),
          Fallible.ofExcept_ok_bind, WgpuQueue.checkOwner, Outcome.require_of _ hbuffer.owner,
          Outcome.wrap_ok, Fallible.ofExcept_ok_bind, WgpuHeader.requireUsage,
          Outcome.require_of _ hbuffer.usage, Outcome.wrap_ok, Fallible.ofExcept_ok_bind,
          Fallible.run_bind_error hargmax]
      · exact .inr ⟨e, by rw [Fallible.run_bind_error hrun]⟩
    · obtain ⟨text, hrun⟩ := verifyHost_of_not_admits htokens hlength hadmits answers
      exact .inr ⟨.unsupported text, congrArg Prod.fst hrun⟩

/-- A device verifies a draft as the CPU does, unless the host or the device refuses an operation.

* Logits in host memory give the same verification and target tokens or the same error, on a device
  that admits a buffer of the logits and runs the kernel. Where a token is outside the vocabulary or
  the length is wrong, they do so on every device.
* So do logits in a buffer of the device with the usage of storage and a whole number of values.
* Logits in host memory that the device does not admit are refused by its limits: an error that the
  CPU does not have.
* On every device an outcome for logits in host memory is that of the CPU or an error of the
  device. -/
theorem verify_agreement (verifier : WgpuGreedySpeculativeVerifierV1) (draft : SpeculativeDraftV1)
    (schedule : ConfidenceScheduleV1) :
    (∀ (scheduler : Scheduler) (device : WgpuDevice) (logits : List F32),
      ((∀ token ∈ draft.tokens, token.toNat < verifier.vocabSize) →
        logits.length = verifier.stepValues draft schedule →
          verifier.Fits draft schedule device) →
      ∀ answers : WgpuAnswers, answers.Yields .portable
        (verifier.verifyHost scheduler device draft schedule logits)
        (verifier.Agrees draft schedule logits)) ∧
    (∀ (scheduler : Scheduler) (device : WgpuDevice) (buffer : WgpuBuffer),
      buffer.deviceToken = device.token →
      buffer.descriptor.usages.contains .storage = true → buffer.len % 4 = 0 →
      buffer.len ≤ device.maxBufferBytes →
      ((∀ token ∈ draft.tokens, token.toNat < verifier.vocabSize) →
        buffer.len = verifier.stepValues draft schedule * 4 →
          device.Runs 64 (bindingBytes buffer.len (schedule.scheduledLen draft + 1))
            (schedule.scheduledLen draft + 1)) →
      ∀ answers : WgpuAnswers, answers.Yields .portable
        (verifier.verify scheduler device draft schedule buffer)
        (verifier.Agrees draft schedule (F32.words buffer.logical.bytes))) ∧
    (∀ (scheduler : Scheduler) (device : WgpuDevice) (logits : List F32),
      (∀ token ∈ draft.tokens, token.toNat < verifier.vocabSize) →
      logits.length = verifier.stepValues draft schedule →
      ¬ device.Admits (verifier.stepValues draft schedule * 4) →
      ∀ answers : WgpuAnswers, ∃ text,
        ((verifier.verifyHost scheduler device draft schedule logits).run answers).1 =
          Outcome.raise (.portable (.unsupported text))) ∧
    ∀ (scheduler : Scheduler) (device : WgpuDevice) (logits : List F32) (answers : WgpuAnswers),
      verifier.Agrees draft schedule logits
          ((verifier.verifyHost scheduler device draft schedule logits).run answers).1 ∨
        ∃ e, ((verifier.verifyHost scheduler device draft schedule logits).run answers).1 =
          .error (.error (.portable e)) := by
  refine ⟨fun _ _ _ hfits answers => verifyHost_yields hfits answers,
    fun _ _ _ howner husage haligned hle hruns answers =>
      verify_yields howner husage haligned hle hruns answers,
    fun _ _ _ htokens hlength hadmits answers => ?_, verifyHost_portable⟩
  obtain ⟨text, hrun⟩ := verifyHost_of_not_admits htokens hlength hadmits answers
  exact ⟨text, congrArg Prod.fst hrun⟩

open CpuGreedySpeculativeVerifierV1 (singleDraft singleSchedule)

private theorem twoTokens_lt : 2 < 2 ^ 32 := by decide

/-- A vocabulary of two tokens. -/
private def twoTokens : WgpuGreedySpeculativeVerifierV1 := ⟨2, Nat.two_pos, twoTokens_lt⟩

/-- Two rows of which the second decides the token after a kept draft. -/
private def keptRows : List F32 :=
  [.zero false, .ofBits 0x3F800000, .ofBits 0x3F800000, .zero false]

private theorem targetTokens_keptRows :
    (targetTokensFrom 0 (chunksExact twoTokens.vocabSize keptRows)).toOption = some [1, 0] := by
  decide +kernel

private theorem verify_keptRows_isOk :
    (twoTokens.cpu.verify singleDraft singleSchedule keptRows).isOk = true := by
  decide +kernel

/-- A device keeps a draft of one token and adds the token of the second row. -/
theorem verify_agreement_singleDraft :
    ∃ outcome, ((twoTokens.verifyHost .ascending .largest singleDraft singleSchedule
      keptRows).run .granting).1 = .ok outcome ∧ outcome.targetTokens = [1, 0] := by
  have hfits : twoTokens.Fits singleDraft singleSchedule .largest :=
    ⟨by decide, ⟨by decide, by decide⟩⟩
  have hagrees := ((verify_agreement twoTokens singleDraft singleSchedule).1 .ascending .largest
    keptRows (fun _ _ => hfits) .granting).of_grants WgpuAnswers.granting_grants
  have htokens := targetTokens_keptRows
  have hok := verify_keptRows_isOk
  cases hverify : twoTokens.cpu.verify singleDraft singleSchedule keptRows with
  | error e =>
    rw [hverify] at hok
    exact nomatch hok
  | ok verification =>
    obtain ⟨targetTokens, htargets, hrun⟩ := hagrees.2 verification hverify
    rw [htargets] at htokens
    exact ⟨_, hrun, Option.some.inj htokens⟩

/-- Two rows of zeros, so wide that no device admits a buffer of them. -/
private theorem two_rows {n : ℕ} (hpos : 0 < n) (hlt : n < 2 ^ 32) (hone : 1 < n)
    (hlarge : 2 ^ 32 ≤ 2 * n * 4) :
    (∃ verification, (⟨n, hpos, hlt⟩ : CpuGreedySpeculativeVerifierV1).verify singleDraft
        singleSchedule (List.replicate (2 * n) (.zero false)) = .ok verification) ∧
      ∃ text, (((⟨n, hpos, hlt⟩ : WgpuGreedySpeculativeVerifierV1).verifyHost .ascending .largest
        singleDraft singleSchedule (List.replicate (2 * n) (.zero false))).run .granting).1 =
          Outcome.raise (.portable (.unsupported text)) := by
  have hscheduled : singleSchedule.scheduledLen singleDraft = 1 := by decide
  have htokens : ∀ token ∈ singleDraft.tokens, token.toNat < n := by
    intro token ht
    rw [List.mem_singleton.1 ht]
    exact hone
  have hvalues : (⟨n, hpos, hlt⟩ : WgpuGreedySpeculativeVerifierV1).stepValues singleDraft
      singleSchedule = 2 * n := by
    rw [stepValues, hscheduled]
  constructor
  · have hverify := CpuGreedySpeculativeVerifierV1.verify_eq ⟨n, hpos, hlt⟩ singleDraft
      singleSchedule (List.replicate 2 (List.replicate n (.zero false))) htokens
      (by rw [List.length_replicate, hscheduled])
      (fun row hrow => by rw [List.eq_of_mem_replicate hrow, List.length_replicate])
      (fun row hrow x hx => by
        rw [List.eq_of_mem_replicate hrow] at hx
        rw [List.eq_of_mem_replicate hx]
        decide)
    rw [List.flatten_replicate_replicate] at hverify
    exact ⟨_, hverify⟩
  · have hcapability : WgpuDevice.largest.maxBufferBytes < 2 ^ 32 := by decide
    have hlength : (List.replicate (2 * n) (.zero false : F32)).length = 2 * n :=
      List.length_replicate
    obtain ⟨text, hrun⟩ := @verifyHost_of_not_admits ⟨n, hpos, hlt⟩ singleDraft singleSchedule
      .ascending .largest _ htokens (hlength.trans hvalues.symm)
      (fun h => Nat.not_lt.2 hlarge (Nat.lt_of_le_of_lt (hvalues ▸ h.1) hcapability)) .granting
    exact ⟨text, congrArg Prod.fst hrun⟩

/-- Two rows of `2 ^ 29` zeros: the CPU verifies them, and no device admits a buffer of four
gibibytes. -/
theorem verifyHost_two_rows :
    (∃ verification,
      (⟨2 ^ 29, by decide, by decide⟩ : CpuGreedySpeculativeVerifierV1).verify singleDraft
        singleSchedule (List.replicate (2 * 2 ^ 29) (.zero false)) = .ok verification) ∧
      ∃ text, (((⟨2 ^ 29, by decide, by decide⟩ : WgpuGreedySpeculativeVerifierV1).verifyHost
        .ascending .largest singleDraft singleSchedule
          (List.replicate (2 * 2 ^ 29) (.zero false))).run .granting).1 =
            Outcome.raise (.portable (.unsupported text)) :=
  two_rows (by decide) (by decide) (by decide) (by decide)

end WgpuGreedySpeculativeVerifierV1

end NNIS
