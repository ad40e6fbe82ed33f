import NNIS.Numeric.Binary
import NNIS.Rt.Driver
import NNIS.Semantics.Fallible
import NNIS.Semantics.Outcome
import NNIS.Sequence.RunningSum

/-!
# Sampling a token from logits

The host sampler of `nnis-model/src/sampling.rs`: the candidates are the first tokens of the
vocabulary ordered by descending logit, their weights are the exponentials of the scaled logits, a
shortest beginning with the required share of the weight is kept, and one draw of a SplitMix64
generator selects a token of it. The arithmetic of the weights, with its exponential function, is a
parameter; that of the code is double precision.

## Main definitions

* `WeightArithmetic`, `f64Weights`, `exactWeights`.
* `SamplingConfig`, `HostLogitSampler`, `HostLogitSampler.sample`.
-/

set_option autoImplicit false

namespace NNIS

/-- The arithmetic of the weights, and the printed form of a single-precision value. -/
structure WeightArithmetic (W : Type) where
  ofF32 : F32 → W
  zero : W
  add : W → W → W
  sub : W → W → W
  mul : W → W → W
  /-- One divided by a value. -/
  recip : W → W
  exp : W → W
  lt : W → W → Bool
  le : W → W → Bool
  isFinite : W → Bool
  /-- A multiple of `2 ^ (-53)`. -/
  unit : ℕ → W
  display : F32 → String

/-- Double precision, with an exponential function. -/
def f64Weights (exp : F64 → F64) (display : F32 → String) : WeightArithmetic F64 where
  ofF32 := Binary.convert binary64
  zero := .zero false
  add := Binary.add
  sub := Binary.sub
  mul := Binary.mul
  recip := (Binary.ofNat 1).div
  exp := exp
  lt := Binary.lt
  le := Binary.le
  isFinite := Binary.isFinite
  unit mantissa := (Binary.ofNat mantissa).mul ((Binary.ofNat 1).div (.ofNat (2 ^ 53)))
  display := display

/-- The number that a finite word stands for. -/
def HostLogitSampler.exactValue (K : Type) [Field K] (x : F32) : K :=
  x.signedUnits / 2 ^ binary32.point

/-- Exact arithmetic in an ordered field, with an exponential function. -/
def exactWeights {K : Type} [Field K] [LinearOrder K] (exp : K → K) (display : F32 → String) :
    WeightArithmetic K where
  ofF32 x := x.signedUnits / 2 ^ binary32.point
  zero := 0
  add := (· + ·)
  sub := (· - ·)
  mul := (· * ·)
  recip := (·)⁻¹
  exp := exp
  lt x y := decide (x < y)
  le x y := decide (x ≤ y)
  isFinite _ := true
  unit mantissa := mantissa / 2 ^ 53
  display := display

/-! ### Configuration -/

/-- Reproducible host-side sampling policy. -/
structure SamplingConfig where
  temperature : F32
  topK : Option ℕ
  topP : Option F32
  seed : UInt64

namespace SamplingConfig

variable {W : Type} (ops : WeightArithmetic W)

/-- The check of the number of candidates. -/
def validateTopK (vocabSize : ℕ) : Option ℕ → Except NnisError Unit
  | none => .ok ⟨⟩
  | some topK =>
    if topK = 0 ∨ vocabSize < topK then
      .error (.invalidInput s!"sampling top_k must be in 1..={vocabSize}; got {topK}")
    else .ok ⟨⟩

/-- The check of the share of the weight. -/
def validateTopP : Option F32 → Except NnisError Unit
  | none => .ok ⟨⟩
  | some topP =>
    if !topP.isFinite || topP.le (.zero false) || (Binary.ofBits 0x3F800000 : F32).lt topP then
      .error (.invalidInput
        s!"sampling top_p must be finite and in (0, 1]; got {ops.display topP}")
    else .ok ⟨⟩

/-- The check of a policy against a vocabulary. -/
def validate (config : SamplingConfig) (vocabSize : ℕ) : Except NnisError Unit :=
  if vocabSize = 0 then .error (.invalidInput "sampling requires a non-zero vocabulary")
  else if !config.temperature.isFinite || config.temperature.le (.zero false) then
    .error (.invalidInput
      s!"sampling temperature must be finite and positive; got {ops.display config.temperature}")
  else do
    validateTopK vocabSize config.topK
    validateTopP ops config.topP

/-- A policy that is accepted for a vocabulary. -/
structure Valid (config : SamplingConfig) (vocabSize : ℕ) : Prop where
  vocabSize_pos : 0 < vocabSize
  temperature_finite : config.temperature.isFinite = true
  temperature_pos : config.temperature.le (.zero false) = false
  topK : ∀ k ∈ config.topK, 0 < k ∧ k ≤ vocabSize
  topP : ∀ p ∈ config.topP, p.isFinite = true ∧ p.le (.zero false) = false ∧
    (Binary.ofBits 0x3F800000 : F32).lt p = false

theorem validate_eq_ok_iff {config : SamplingConfig} {vocabSize : ℕ} :
    config.validate ops vocabSize = .ok ⟨⟩ ↔ config.Valid vocabSize := by
  have htopK : validateTopK vocabSize config.topK = .ok ⟨⟩ ↔
      ∀ k ∈ config.topK, 0 < k ∧ k ≤ vocabSize := by
    cases config.topK with
    | none => exact ⟨fun _ _ => nofun, fun _ => rfl⟩
    | some k =>
      rw [validateTopK, Except.ite_error_eq_ok_iff, not_or, Nat.not_lt, ← ne_eq,
        ← Nat.pos_iff_ne_zero]
      simp
  have htopP : validateTopP ops config.topP = .ok ⟨⟩ ↔
      ∀ p ∈ config.topP, p.isFinite = true ∧ p.le (.zero false) = false ∧
        (Binary.ofBits 0x3F800000 : F32).lt p = false := by
    cases config.topP with
    | none => exact ⟨fun _ _ => nofun, fun _ => rfl⟩
    | some p =>
      rw [validateTopP, Except.ite_error_eq_ok_iff]
      simp [and_assoc]
  rw [validate, Except.ite_error_eq_ok_iff, Except.ite_error_eq_ok_iff, Except.bind_eq_ok_iff]
  constructor
  · rintro ⟨hvocab, htemperature, ⟨⟩, hk, hp⟩
    rw [Bool.or_eq_true, Bool.not_eq_true', not_or, Bool.not_eq_false, Bool.not_eq_true]
      at htemperature
    exact ⟨Nat.pos_of_ne_zero hvocab, htemperature.1, htemperature.2, htopK.1 hk, htopP.1 hp⟩
  · intro h
    refine ⟨h.vocabSize_pos.ne', ?_, ⟨⟩, htopK.2 h.topK, htopP.2 h.topP⟩
    rw [h.temperature_finite, h.temperature_pos]
    exact Bool.false_ne_true

end SamplingConfig

/-! ### The generator -/

/-- A SplitMix64 generator. -/
structure SplitMix64 where
  state : UInt64
  deriving DecidableEq

namespace SplitMix64

/-- The generator after a draw. -/
def next (rng : SplitMix64) : SplitMix64 := ⟨rng.state + 0x9E3779B97F4A7C15⟩

/-- The word of a draw. -/
def nextU64 (rng : SplitMix64) : UInt64 :=
  let value := rng.next.state
  let value := (value ^^^ (value >>> 30)) * 0xBF58476D1CE4E5B9
  let value := (value ^^^ (value >>> 27)) * 0x94D049BB133111EB
  value ^^^ (value >>> 31)

/-- The number of a draw, at least zero and below one. -/
def nextUnitF64 {W : Type} (ops : WeightArithmetic W) (rng : SplitMix64) : W :=
  ops.unit (rng.nextU64 >>> 11).toNat

end SplitMix64

/-! ### The sampler -/

/-- A token that may be drawn. -/
structure Candidate (W : Type) where
  token : UInt32
  logit : F32
  weight : W

/-- The order of two values, if they are numbers. -/
def partialCmp (x y : F32) : Option Ordering :=
  if x.isNaN || y.isNaN then none else some (compare x.key y.key)

/-- The order of candidates: descending logits, then ascending tokens. -/
def compareCandidates {W : Type} (left right : Candidate W) : Ordering :=
  ((partialCmp right.logit left.logit).getD .eq).then (compare left.token right.token)

/-- A sampler for a vocabulary, whose policy has been accepted. -/
structure HostLogitSampler where
  config : SamplingConfig
  rng : SplitMix64
  vocabSize : ℕ
  valid : config.Valid vocabSize
  vocabSize_lt : vocabSize < UInt32.size

namespace HostLogitSampler

variable {W : Type} (ops : WeightArithmetic W)

/-- A new sampler. -/
def new (config : SamplingConfig) (vocabSize : ℕ) : Except NnisError HostLogitSampler :=
  match hvalid : config.validate ops vocabSize with
  | .error e => .error e
  | .ok _ =>
    if hlt : vocabSize < UInt32.size then
      .ok ⟨config, ⟨config.seed⟩, vocabSize, (SamplingConfig.validate_eq_ok_iff ops).1 hvalid, hlt⟩
    else
      .error (.unsupported "host sampler currently requires vocabulary size <= u32::MAX")

theorem new_ok {config : SamplingConfig} {vocabSize : ℕ} {sampler : HostLogitSampler}
    (h : new ops config vocabSize = .ok sampler) :
    sampler.config = config ∧ sampler.vocabSize = vocabSize := by
  unfold new at h
  split at h
  · cases h
  · split_ifs at h
    cases h
    exact ⟨rfl, rfl⟩

theorem exists_new {config : SamplingConfig} {vocabSize : ℕ} (hvalid : config.Valid vocabSize)
    (hlt : vocabSize < UInt32.size) : ∃ sampler, new ops config vocabSize = .ok sampler := by
  have hvalidate := (SamplingConfig.validate_eq_ok_iff ops).2 hvalid
  unfold new
  split
  · next e he =>
    rw [hvalidate] at he
    cases he
  · rw [dif_pos hlt]
    exact ⟨_, rfl⟩

/-- The candidates of a row of logits, in their order. -/
def candidates (logits : List F32) : List (Candidate W) :=
  (logits.zipIdx.map fun (logit, token) =>
    { token := UInt32.ofNat token, logit := logit, weight := ops.zero }).mergeSort
      fun left right => (compareCandidates left right).isLE

/-- The truncation to a number of candidates. -/
def truncate (topK : Option ℕ) (candidates : List (Candidate W)) : List (Candidate W) :=
  match topK with
  | some topK => candidates.take topK
  | none => candidates

/-- One candidate with its weight, and the weight of all so far. -/
def weigh (inverseTemperature maxScaled : W) (state : List (Candidate W) × W)
    (candidate : Candidate W) : Except NnisError (List (Candidate W) × W) :=
  let scaled := ops.mul (ops.ofF32 candidate.logit) inverseTemperature
  let weight := ops.exp (ops.sub scaled maxScaled)
  if !ops.isFinite weight || ops.lt weight ops.zero then
    .error (.invalidInput "sampling softmax produced a non-finite probability weight")
  else .ok (state.1 ++ [{ candidate with weight := weight }], ops.add state.2 weight)

/-- The shortest beginning of weighted candidates with the required share of their weight, and its
weight. -/
def nucleus (topP : F32) (candidates : List (Candidate W)) (totalWeight : W) :
    List (Candidate W) × W :=
  let threshold := ops.mul (ops.ofF32 topP) totalWeight
  let reached := firstReaching ops.add (fun cumulative => ops.le threshold cumulative) ops.zero
    (candidates.map Candidate.weight)
  let retained := match reached with
    | some index => index + 1
    | none => candidates.length
  let candidates := candidates.take (max retained 1)
  (candidates, (candidates.map Candidate.weight).foldl ops.add ops.zero)

/-- The truncation to a share of the weight. -/
def restrict (topP : Option F32) (weighted : List (Candidate W) × W) : List (Candidate W) × W :=
  match topP with
  | some topP => nucleus ops topP weighted.1 weighted.2
  | none => weighted

/-- The first candidates with their weights, and the weight of all of them. -/
def weighAll (temperature : F32) (candidates : List (Candidate W)) :
    Except NnisError (List (Candidate W) × W) := do
  let inverseTemperature := ops.recip (ops.ofF32 temperature)
  -- An accepted policy leaves at least one candidate.
  let first := candidates.headD ⟨0, .zero false, ops.zero⟩
  let maxScaled := ops.mul (ops.ofF32 first.logit) inverseTemperature
  let (weighted, totalWeight) ← candidates.foldlM (weigh ops inverseTemperature maxScaled)
    ([], ops.zero)
  if !ops.isFinite totalWeight || ops.le totalWeight ops.zero then
    .error (.invalidInput "sampling softmax produced no positive finite probability mass")
  else .ok (weighted, totalWeight)

/-- The candidates that a draw decides between, and their weight. -/
def retain (sampler : HostLogitSampler) (logits : List F32) :
    Except NnisError (List (Candidate W) × W) :=
  if logits.length ≠ sampler.vocabSize then
    .error (.invalidInput
      s!"sampling expected {sampler.vocabSize} logits; got {logits.length}")
  else
    match logits.zipIdx.find? fun (value, _) => !value.isFinite with
    | some (value, index) =>
      .error (.invalidInput s!"sampling logit {index} is non-finite: {ops.display value}")
    | none => do
      let first := truncate sampler.config.topK (candidates ops logits)
      let weighted ← weighAll ops sampler.config.temperature first
      .ok (restrict ops sampler.config.topP weighted)

/-- The candidate in whose range a draw falls, or the last one. -/
def select (candidates : List (Candidate W)) (draw : W) : Except NnisError UInt32 :=
  match firstReaching ops.add (fun cumulative => ops.lt draw cumulative) ops.zero
      (candidates.map Candidate.weight) >>= fun index => candidates[index]? with
  | some candidate => .ok candidate.token
  | none =>
    match candidates.getLast? with
    | some candidate => .ok candidate.token
    | none => .error (.invalidInput "sampling retained no candidates")

/-- One token, by one draw. -/
def sample (logits : List F32) : Fallible HostLogitSampler NnisError UInt32 := do
  let sampler ← Fallible.get
  let (candidates, totalWeight) ← Fallible.ofExcept (sampler.retain ops logits)
  let draw := ops.mul (sampler.rng.nextUnitF64 ops) totalWeight
  Fallible.modify fun sampler => { sampler with rng := sampler.rng.next }
  Fallible.ofExcept (select ops candidates draw)

end HostLogitSampler

end NNIS
