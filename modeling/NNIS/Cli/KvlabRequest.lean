import Mathlib.Data.Finset.Card
import NNIS.Numeric.Binary
import NNIS.Rt.KvLayerCompaction
import NNIS.Text.Str

/-!
# KVLab backend requests

The requests of the two KVLab backends and their validation (`nnis-kvlab-backend.rs`, requests v3,
and `nnis-kvlab-backend-v4.rs`, requests v4). A v4 request names the rows that it retains by their
positions in the input; a v3 request names them by logical identities, and the rows are the
positions of the retained identities in the list of all of them.

The digest of the trace is computed by a library, and so are the quoted form of a text in an error
and the transcendental functions of the scores.

## Main definitions

* `Kvlab.RequestV4`, `Kvlab.validateRequestV4`.
* `Kvlab.RequestV3`, `Kvlab.validateRequestV3`, `Kvlab.retainedRows`.
* `Kvlab.Retains` — a selection of rows that names the retained identities.

## Main results

* `Kvlab.retains_of_validateRequestV4`, `Kvlab.retains_of_validateRequestV3`.
-/

set_option autoImplicit false

namespace NNIS

namespace Kvlab

/-! ### Texts -/

/-- The functions of libraries that a backend calls. -/
structure Platform where
  /-- The quoted form of a text. -/
  debug : String → String
  /-- The digest of the UTF-8 encoding of a text, in lowercase hexadecimal. -/
  sha256Hex : String → String
  exp : F64 → F64
  ln : F64 → F64

def isAscii (value : String) : Bool := value.toList.all fun c => c.toNat < 128

def isLowerHex (value : String) (length : ℕ) : Bool :=
  Str.len value == length && value.toList.all Str.isLowerHex

/-- The text check of the v3 backend. -/
def requireAsciiTextV3 (name value : String) : Except String Unit :=
  if Str.trim value = "" then .error s!"{name} must be non-empty"
  else if isAscii value = false then
    .error s!"{name} must be ASCII for canonical JSON interoperability"
  else .ok ⟨⟩

def maxRequestTextBytes : ℕ := 1024

/-- The text check of the v4 backend, which also bounds the length. -/
def requireAsciiTextV4 (name value : String) : Except String Unit :=
  if Str.trim value = "" then .error s!"{name} must be non-empty"
  else if maxRequestTextBytes < Str.len value then
    .error s!"{name} exceeds the {maxRequestTextBytes}-byte text limit"
  else if isAscii value = false then
    .error s!"{name} must be ASCII for canonical JSON interoperability"
  else .ok ⟨⟩

/-! ### Configurations -/

/-- The provenance that a backend is configured with. -/
structure Args where
  modelId : String
  modelRevision : String
  tokenizerRevision : String
  runtimeBackend : String
  runtimeRevision : String

/-- The part of an exact checkpoint specification that the v4 backend reads. -/
structure ExactDecoderCheckpointSpec where
  name : String
  sourceRepo : String
  sourceRevision : String
  sourceModelSha256 : String
  hiddenSize : ℕ
  numHiddenLayers : ℕ
  numAttentionHeads : ℕ
  numKeyValueHeads : ℕ
  maxPositionEmbeddings : ℕ

def smollm2135mBf16 : ExactDecoderCheckpointSpec where
  name := "smollm2-135m-bf16"
  sourceRepo := "HuggingFaceTB/SmolLM2-135M"
  sourceRevision := "93efa2f097d58c2a74874c7e644dbc9b0cee75a2"
  sourceModelSha256 := "80521b40281d6ce74e35c9282c22539e75aa0ac8578892b2a59955ef78d55da1"
  hiddenSize := 576
  numHiddenLayers := 30
  numAttentionHeads := 9
  numKeyValueHeads := 3
  maxPositionEmbeddings := 8192

def tinyllama1p1bChatBf16 : ExactDecoderCheckpointSpec where
  name := "tinyllama-1.1b-chat-v1.0-bf16"
  sourceRepo := "TinyLlama/TinyLlama-1.1B-Chat-v1.0"
  sourceRevision := "d9128824c0c80111be21424e68086f52413fb413"
  sourceModelSha256 := "6e6001da2106d4757498752a021df6c2bdc332c650aae4bae6b0c004dcf14933"
  hiddenSize := 2048
  numHiddenLayers := 22
  numAttentionHeads := 32
  numKeyValueHeads := 4
  maxPositionEmbeddings := 2048

/-- The exact checkpoint that a configuration names. -/
def exactCheckpointSpec (platform : Platform) (args : Args) :
    Except String ExactDecoderCheckpointSpec :=
  match [smollm2135mBf16, tinyllama1p1bChatBf16].find? fun spec =>
      args.modelId == spec.sourceRepo with
  | some spec =>
    if args.modelRevision ≠ spec.sourceRevision then
      .error (s!"model revision {platform.debug args.modelRevision} does not match exact " ++
        s!"checkpoint {spec.name} revision {spec.sourceRevision}")
    else .ok spec
  | none => .error (s!"model identity {args.modelId}@{args.modelRevision} has no exact NNIS " ++
      "checkpoint specification for KVLab v4 evidence")

/-! ### Requests -/

/-- The fields that the requests of both versions have. -/
structure Request where
  schema : String
  mode : String
  experimentId : String
  runRepositoryRevision : String
  modelId : String
  modelRevision : String
  tokenizerRevision : String
  runtimeBackend : String
  runtimeRevision : String
  evaluationId : String
  traceSha256 : String
  modelInputTokenIds : List UInt32
  evaluationTokenIds : List UInt32
  bytesPerToken : ℕ
  policy : Option String

structure RequestV4 extends Request where
  retainedPositions : List ℕ

structure RequestV3 extends Request where
  logicalInputTokenIds : List UInt64
  retainedLogicalTokenIds : List UInt64

/-- The checks of the fields that both versions have. -/
def validateProvenance (schema : String) (requireAsciiText : String → String → Except String Unit)
    (platform : Platform) (args : Args) (request : Request) : Except String Unit :=
  if request.schema ≠ schema then
    .error s!"unsupported request schema {platform.debug request.schema}"
  else do
    [("experiment_id", request.experimentId), ("model_id", request.modelId),
      ("model_revision", request.modelRevision), ("tokenizer_revision", request.tokenizerRevision),
      ("runtime_backend", request.runtimeBackend), ("runtime_revision", request.runtimeRevision),
      ("evaluation_id", request.evaluationId)].forM fun (name, value) => requireAsciiText name value
    if isLowerHex request.runRepositoryRevision 40 = false then
      .error "run_repository_revision must be a lowercase full Git SHA"
    else if isLowerHex request.traceSha256 64 = false then
      .error "trace_sha256 must be a lowercase SHA-256 digest"
    else if request.bytesPerToken = 0 then .error "bytes_per_token must be positive"
    else if request.modelId ≠ args.modelId ∨ request.modelRevision ≠ args.modelRevision ∨
        request.tokenizerRevision ≠ args.tokenizerRevision ∨
        request.runtimeBackend ≠ args.runtimeBackend ∨
        request.runtimeRevision ≠ args.runtimeRevision then
      .error "request model/runtime provenance does not match backend configuration"
    else .ok ⟨⟩

/-- The mode of a request agrees with its policy and with whether it retains everything. -/
def validateMode (requireAsciiText : String → String → Except String Unit) (platform : Platform)
    (request : Request) (retainsAll : Prop) [Decidable retainsAll] (partialBaseline : String) :
    Except String Unit :=
  if request.mode = "baseline" then
    if request.policy.isSome then .error "baseline request policy must be null"
    else if ¬ retainsAll then .error partialBaseline
    else .ok ⟨⟩
  else if request.mode = "candidate" then
    match request.policy with
    | none => .error "candidate request requires a policy"
    | some policy => do
      requireAsciiText "policy" policy
      if retainsAll then .error "candidate selection duplicates the full-cache baseline"
      else .ok ⟨⟩
  else .error s!"unsupported request mode {platform.debug request.mode}"

/-- The canonical text of a list of numbers. -/
def jsonNumbers (values : List ℕ) : String :=
  "[" ++ String.intercalate "," (values.map toString) ++ "]"

/-! ### Requests v4 -/

def requestSchemaV4 : String := "kvlab.prospect-kv-backend-request/v4"

def traceSchemaV4 : String := "kvlab.prospect-kv-real-model-position-trace/v1"

/-- The scan of `validateRetainedPositions` after a previous position. -/
def validateRetainedAfter (inputLen : ℕ) : Option ℕ → List ℕ → Except String Unit
  | _, [] => .ok ⟨⟩
  | previous, position :: rest =>
    if inputLen ≤ position then
      .error s!"retained_positions contains {position} outside input prefix 0..{inputLen}"
    else if previous.any fun last => position ≤ last then
      .error "retained_positions must be strictly increasing and unique"
    else validateRetainedAfter inputLen (some position) rest

def validateRetainedPositions (inputLen : ℕ) (positions : List ℕ) : Except String Unit :=
  validateRetainedAfter inputLen none positions

/-- The digest of the canonical trace of a request. -/
def traceSha256V4 (platform : Platform) (request : RequestV4) : String :=
  platform.sha256Hex ("\x7b\"evaluation_token_ids\":" ++
    jsonNumbers (request.evaluationTokenIds.map UInt32.toNat) ++ ",\"model_input_token_ids\":" ++
    jsonNumbers (request.modelInputTokenIds.map UInt32.toNat) ++ ",\"schema\":\"" ++
    traceSchemaV4 ++ "\"\x7d")

/-- The value of a checked computation, or a message. -/
def okOr {α : Type} (message : String) : Option α → Except String α
  | some a => .ok a
  | none => .error message

/-- The number of positions that a request takes when its last token is only scored. -/
def requiredPositions (request : Request) : Except String ℕ := do
  let decodedEvaluationTokens ← okOr "evaluation token length underflow"
    (checkedSub request.evaluationTokenIds.length 1)
  okOr "model input plus evaluation length overflows usize"
    (checkedAdd request.modelInputTokenIds.length decodedEvaluationTokens)

def twoTokensRequired : String :=
  "NNIS backend requires at least two evaluation tokens: one bridge and one scored target"

/-- `validate_request` of the v4 backend. -/
def validateRequestV4 (platform : Platform) (args : Args) (request : RequestV4) :
    Except String Unit := do
  validateProvenance requestSchemaV4 requireAsciiTextV4 platform args request.toRequest
  if request.modelInputTokenIds = [] then .error "model_input_token_ids must not be empty"
  else if request.evaluationTokenIds.length < 2 then .error twoTokensRequired
  else do
    let checkpointSpec ← exactCheckpointSpec platform args
    let maxPositions := checkpointSpec.maxPositionEmbeddings
    if maxPositions < request.modelInputTokenIds.length then
      .error (s!"model_input_token_ids length {request.modelInputTokenIds.length} exceeds exact " ++
        s!"checkpoint {checkpointSpec.name} capacity {maxPositions}")
    else do
      let required ← requiredPositions request.toRequest
      if maxPositions < required then
        .error (s!"model input plus decoded evaluation requires {required} logical positions " ++
          s!"but exact checkpoint {checkpointSpec.name} capacity is {maxPositions}")
      else if request.modelInputTokenIds.length < request.retainedPositions.length then
        .error "retained_positions has more entries than model_input_token_ids"
      else do
        validateRetainedPositions request.modelInputTokenIds.length request.retainedPositions
        validateMode requireAsciiTextV4 platform request.toRequest
          (request.retainedPositions = List.range request.modelInputTokenIds.length)
          "baseline must retain every input position"
        if traceSha256V4 platform request ≠ request.traceSha256 then
          .error "request trace_sha256 does not match embedded position trace"
        else .ok ⟨⟩

/-! ### Requests v3 -/

def requestSchemaV3 : String := "kvlab.prospect-kv-backend-request/v3"

def traceSchemaV3 : String := "kvlab.prospect-kv-real-model-trace/v1"

def validateUniqueIds (name : String) (values : List UInt64) (allowEmpty : Bool) :
    Except String Unit :=
  if allowEmpty = false ∧ values = [] then .error s!"{name} must not be empty"
  else if values.toFinset.card ≠ values.length then
    .error s!"{name} must contain unique logical ids"
  else .ok ⟨⟩

/-- The digest of the canonical trace of a request. -/
def traceSha256V3 (platform : Platform) (request : RequestV3) : String :=
  platform.sha256Hex ("\x7b\"evaluation_token_ids\":" ++
    jsonNumbers (request.evaluationTokenIds.map UInt32.toNat) ++ ",\"logical_input_token_ids\":" ++
    jsonNumbers (request.logicalInputTokenIds.map UInt64.toNat) ++
    ",\"model_input_token_ids\":" ++
    jsonNumbers (request.modelInputTokenIds.map UInt32.toNat) ++ ",\"schema\":\"" ++
    traceSchemaV3 ++ "\"\x7d")

/-- `validate_request` of the v3 backend. -/
def validateRequestV3 (platform : Platform) (args : Args) (request : RequestV3) :
    Except String Unit := do
  validateProvenance requestSchemaV3 requireAsciiTextV3 platform args request.toRequest
  validateUniqueIds "logical_input_token_ids" request.logicalInputTokenIds false
  validateUniqueIds "retained_logical_token_ids" request.retainedLogicalTokenIds true
  if request.modelInputTokenIds.length ≠ request.logicalInputTokenIds.length then
    .error "model_input_token_ids must be position-aligned with logical_input_token_ids"
  else if request.evaluationTokenIds.length < 2 then .error twoTokensRequired
  else
    let retainedSet := request.retainedLogicalTokenIds.toFinset
    let canonicalRetained := request.logicalInputTokenIds.filter fun identity =>
      identity ∈ retainedSet
    if canonicalRetained ≠ request.retainedLogicalTokenIds then
      .error "retained_logical_token_ids must be an ordered subset of logical_input_token_ids"
    else do
      validateMode requireAsciiTextV3 platform request.toRequest
        (request.retainedLogicalTokenIds = request.logicalInputTokenIds)
        "baseline must retain every logical input row"
      if traceSha256V3 platform request ≠ request.traceSha256 then
        .error "request trace_sha256 does not match embedded real-model trace"
      else .ok ⟨⟩

/-- The positions of the retained identities. -/
def retainedRows (request : RequestV3) : List ℕ :=
  let retained := request.retainedLogicalTokenIds.toFinset
  request.logicalInputTokenIds.zipIdx.filterMap fun (identity, index) =>
    if identity ∈ retained then some index else none

/-! ### Accepted requests -/

/-- A selection of rows names the retained identities in order. -/
structure Retains {α : Type} (identities retained : List α) (rows : List ℕ) : Prop where
  bounded : ∀ row ∈ rows, row < identities.length
  increasing : rows.Pairwise (· < ·)
  names : rows.map (fun row => identities[row]?) = retained.map some

/-- What the evaluation of an accepted request relies on. -/
structure Admitted (request : Request) (rows : List ℕ) : Prop where
  input_ne_nil : request.modelInputTokenIds ≠ []
  two_le : 2 ≤ request.evaluationTokenIds.length
  bounded : ∀ row ∈ rows, row < request.modelInputTokenIds.length
  increasing : rows.Pairwise (· < ·)
  /-- Only a candidate drops rows. -/
  all_of_not_candidate : request.mode ≠ "candidate" →
    rows = List.range request.modelInputTokenIds.length

theorem Admitted.valid {request : Request} {rows : List ℕ} (h : Admitted request rows) :
    KvCache.validateRetainedPositions request.modelInputTokenIds.length rows = .ok ⟨⟩ :=
  KvCache.validateRetainedPositions_eq_ok_iff.2 ⟨h.bounded, h.increasing⟩

/-- The scan is that of a compaction, with other messages. -/
private theorem validateRetainedAfter_ok {inputLen : ℕ} {previous : Option ℕ} {positions : List ℕ}
    (h : validateRetainedAfter inputLen previous positions = .ok ⟨⟩) :
    KvCache.validateRetainedAfter inputLen previous positions = .ok ⟨⟩ := by
  induction positions generalizing previous with
  | nil => rfl
  | cons position rest ih =>
    rw [validateRetainedAfter, Except.ite_error_eq_ok_iff, Except.ite_error_eq_ok_iff] at h
    obtain ⟨hbound, hlast, hrest⟩ := h
    rw [KvCache.validateRetainedAfter, if_neg hbound, if_neg hlast]
    exact ih hrest

theorem validateRetainedPositions_ok {inputLen : ℕ} {positions : List ℕ}
    (h : validateRetainedPositions inputLen positions = .ok ⟨⟩) :
    (∀ p ∈ positions, p < inputLen) ∧ positions.Pairwise (· < ·) :=
  KvCache.validateRetainedPositions_ok (validateRetainedAfter_ok h)

/-- An accepted mode other than that of candidates retains everything. -/
theorem retainsAll_of_validateMode {requireAsciiText : String → String → Except String Unit}
    {platform : Platform} {request : Request} {retainsAll : Prop} [Decidable retainsAll]
    {partialBaseline : String}
    (h : validateMode requireAsciiText platform request retainsAll partialBaseline = .ok ⟨⟩)
    (hmode : request.mode ≠ "candidate") : retainsAll := by
  unfold validateMode at h
  rw [if_neg hmode] at h
  split_ifs at h with hbaseline hpolicy hall
  exact hall

theorem okOr_eq_ok_iff {α : Type} {message : String} {value : Option α} {a : α} :
    okOr message value = .ok a ↔ value = some a := by
  cases value with
  | none => exact iff_of_false nofun nofun
  | some b =>
    exact ⟨fun h => congrArg some (Except.ok.inj h), fun h => congrArg _ (Option.some.inj h)⟩

theorem requiredPositions_eq_ok_iff {request : Request} {n : ℕ} :
    requiredPositions request = .ok n ↔ 1 ≤ request.evaluationTokenIds.length ∧
      request.modelInputTokenIds.length + (request.evaluationTokenIds.length - 1) = n ∧
        n < wordLimit := by
  unfold requiredPositions
  simp only [Except.bind_eq_ok_iff, okOr_eq_ok_iff, checkedSub_eq_some_iff, checkedAdd_eq_some_iff]
  constructor
  · rintro ⟨decoded, ⟨hone, rfl⟩, hsum⟩
    exact ⟨hone, hsum⟩
  · rintro ⟨hone, hsum⟩
    exact ⟨_, ⟨hone, rfl⟩, hsum⟩

/-- A request v4 that is accepted retains the positions that it names, and the positions of its
evaluation fit the checkpoint. -/
theorem admitted_of_validateRequestV4 {platform : Platform} {args : Args} {request : RequestV4}
    (h : validateRequestV4 platform args request = .ok ⟨⟩) :
    Admitted request.toRequest request.retainedPositions ∧
      ∃ spec, exactCheckpointSpec platform args = .ok spec ∧
        request.modelInputTokenIds.length + (request.evaluationTokenIds.length - 1) ≤
          spec.maxPositionEmbeddings := by
  unfold validateRequestV4 at h
  simp only [Except.bind_eq_ok_iff, Except.ite_error_eq_ok_iff] at h
  obtain ⟨_, -, hinput, htwo, spec, hspec, -, required, hrequired, hcapacity, -, _, hretained, _,
    hmode, -⟩ := h
  obtain ⟨-, hsum, -⟩ := requiredPositions_eq_ok_iff.1 hrequired
  obtain ⟨hbound, hpair⟩ := validateRetainedPositions_ok hretained
  exact ⟨⟨hinput, Nat.not_lt.1 htwo, hbound, hpair, retainsAll_of_validateMode hmode⟩,
    spec, hspec, hsum ▸ Nat.not_lt.1 hcapacity⟩

/-- The positions that an accepted request v4 retains are their own identities. -/
theorem retains_of_validateRequestV4 {platform : Platform} {args : Args} {request : RequestV4}
    (h : validateRequestV4 platform args request = .ok ⟨⟩) :
    Retains (List.range request.modelInputTokenIds.length) request.retainedPositions
      request.retainedPositions := by
  obtain ⟨hadmitted, -⟩ := admitted_of_validateRequestV4 h
  refine ⟨fun row hrow => ?_, hadmitted.increasing, List.map_congr_left fun row hrow => ?_⟩
  · rw [List.length_range]
    exact hadmitted.bounded row hrow
  · rw [List.getElem?_range (hadmitted.bounded row hrow)]

/-! ### Rows of identities -/

section Rows

variable {α : Type} (p : α → Bool)

/-- The numbers of the elements that satisfy a predicate, counted from a number on. -/
private def rowsFrom (k : ℕ) (l : List α) : List ℕ :=
  (l.zipIdx k).filterMap fun x => if p x.1 then some x.2 else none

private theorem rowsFrom_cons (k : ℕ) (x : α) (l : List α) :
    rowsFrom p k (x :: l) = (if p x then [k] else []) ++ rowsFrom p (k + 1) l := by
  unfold rowsFrom
  rw [List.zipIdx_cons, List.filterMap_cons]
  by_cases hx : p x = true
  · simp only [hx, if_true, List.cons_append, List.nil_append]
  · simp only [hx]
    rfl

private theorem rowsFrom_bounds {k : ℕ} {l : List α} {row : ℕ} (h : row ∈ rowsFrom p k l) :
    k ≤ row ∧ row < k + l.length := by
  induction l generalizing k with
  | nil => exact absurd h List.not_mem_nil
  | cons x l ih =>
    rw [rowsFrom_cons, List.mem_append] at h
    rw [List.length_cons]
    rcases h with h | h
    · split_ifs at h
      · rw [List.mem_singleton.1 h]
        omega
      · exact absurd h List.not_mem_nil
    · have := ih h
      omega

private theorem rowsFrom_pairwise (k : ℕ) (l : List α) : (rowsFrom p k l).Pairwise (· < ·) := by
  induction l generalizing k with
  | nil => exact List.Pairwise.nil
  | cons x l ih =>
    rw [rowsFrom_cons, List.pairwise_append]
    refine ⟨?_, ih (k + 1), fun a ha b hb => ?_⟩
    · split_ifs
      · exact List.pairwise_singleton _ _
      · exact List.Pairwise.nil
    · have hb := (rowsFrom_bounds p hb).1
      split_ifs at ha
      · rw [List.mem_singleton.1 ha]
        omega
      · exact absurd ha List.not_mem_nil

private theorem map_rowsFrom (k : ℕ) (l : List α) :
    (rowsFrom p k l).map (fun row => l[row - k]?) = (l.filter p).map some := by
  induction l generalizing k with
  | nil => rfl
  | cons x l ih =>
    have htail : (rowsFrom p (k + 1) l).map (fun row => (x :: l)[row - k]?) =
        (l.filter p).map some := by
      rw [← ih (k + 1)]
      refine List.map_congr_left fun row hrow => ?_
      have hlt := (rowsFrom_bounds p hrow).1
      rw [show row - k = row - (k + 1) + 1 by omega, List.getElem?_cons_succ]
    rw [rowsFrom_cons, List.map_append, htail, List.filter_cons]
    by_cases hx : p x = true
    · rw [if_pos hx, if_pos hx, List.map_cons, List.map_cons, List.map_nil, Nat.sub_self]
      rfl
    · rw [if_neg hx, if_neg hx, List.map_nil, List.nil_append]

/-- The numbers of the elements that satisfy a predicate name these elements. -/
private theorem retains_rowsFrom (l : List α) : Retains l (l.filter p) (rowsFrom p 0 l) where
  bounded row hrow := by
    have := (rowsFrom_bounds p hrow).2
    omega
  increasing := rowsFrom_pairwise p 0 l
  names := map_rowsFrom p 0 l

private theorem rowsFrom_of_all {l : List α} (h : ∀ x ∈ l, p x = true) (k : ℕ) :
    rowsFrom p k l = List.range' k l.length := by
  induction l generalizing k with
  | nil => rfl
  | cons x l ih =>
    rw [rowsFrom_cons, if_pos (h x List.mem_cons_self), List.length_cons, List.range'_succ,
      ih fun y hy => h y (List.mem_cons_of_mem x hy)]
    rfl

end Rows

private theorem retainedRows_eq (request : RequestV3) :
    retainedRows request = rowsFrom (fun identity => identity ∈ request.retainedLogicalTokenIds) 0
      request.logicalInputTokenIds := by
  unfold retainedRows rowsFrom
  refine List.filterMap_congr fun x _ => ?_
  simp only [List.mem_toFinset, decide_eq_true_eq]

/-- What an accepted request v3 has been checked for. -/
private theorem checks_of_validateRequestV3 {platform : Platform} {args : Args}
    {request : RequestV3} (h : validateRequestV3 platform args request = .ok ⟨⟩) :
    request.logicalInputTokenIds ≠ [] ∧
      request.modelInputTokenIds.length = request.logicalInputTokenIds.length ∧
      2 ≤ request.evaluationTokenIds.length ∧
      request.logicalInputTokenIds.filter
        (fun identity => identity ∈ request.retainedLogicalTokenIds) =
          request.retainedLogicalTokenIds ∧
      (request.mode ≠ "candidate" →
        request.retainedLogicalTokenIds = request.logicalInputTokenIds) := by
  unfold validateRequestV3 validateUniqueIds at h
  simp only [Except.bind_eq_ok_iff, Except.ite_error_eq_ok_iff, List.mem_toFinset] at h
  obtain ⟨_, -, _, hunique, _, -, hlength, htwo, hretained, _, hmode, -⟩ := h
  exact ⟨fun hnil => hunique.1 ⟨trivial, hnil⟩, Decidable.of_not_not hlength, Nat.not_lt.1 htwo,
    Decidable.of_not_not hretained, retainsAll_of_validateMode hmode⟩

/-- The rows of an accepted request v3 name its retained identities in order. -/
theorem retains_of_validateRequestV3 {platform : Platform} {args : Args} {request : RequestV3}
    (h : validateRequestV3 platform args request = .ok ⟨⟩) :
    Retains request.logicalInputTokenIds request.retainedLogicalTokenIds
      (retainedRows request) := by
  obtain ⟨-, -, -, hretained, -⟩ := checks_of_validateRequestV3 h
  have hrows := retains_rowsFrom (fun identity => identity ∈ request.retainedLogicalTokenIds)
    request.logicalInputTokenIds
  rwa [hretained, ← retainedRows_eq] at hrows

theorem admitted_of_validateRequestV3 {platform : Platform} {args : Args} {request : RequestV3}
    (h : validateRequestV3 platform args request = .ok ⟨⟩) :
    Admitted request.toRequest (retainedRows request) := by
  obtain ⟨hinput, hlength, htwo, -, hall⟩ := checks_of_validateRequestV3 h
  have hrows := retains_of_validateRequestV3 h
  refine ⟨fun hnil => hinput ?_, htwo, fun row hrow => hlength ▸ hrows.bounded row hrow,
    hrows.increasing, fun hmode => ?_⟩
  · rw [← List.length_eq_zero_iff, ← hlength, hnil, List.length_nil]
  · rw [retainedRows_eq, rowsFrom_of_all _ fun x hx => ?_, hlength, List.range_eq_range']
    rw [hall hmode]
    exact decide_eq_true hx

end Kvlab

end NNIS
