import NNIS.Text.Str

/-!
# Cross-layer KV reuse plans

The plans of `nnis-core/src/kv_reuse_plan.rs`: each layer owns its key and its value cache, or
reuses that component of one strictly earlier layer that owns it. A plan carries the outcome of its
validation.

## Main definitions

* `KvComponent`, `KvLayerSourceV1`, `KvLayerReuseV1`, `CrossLayerKvReusePlanV1`.
* `CrossLayerKvReusePlanV1.new`, `CrossLayerKvReusePlanV1.owner`,
  `CrossLayerKvReusePlanV1.owningLayers`, `CrossLayerKvReusePlanV1.ownedCount`.

## Main results

* `CrossLayerKvReusePlanV1.exists_owner`, `CrossLayerKvReusePlanV1.Owns.owner_eq` — owners are not
  later than their layers and own what they are read for.
* `CrossLayerKvReusePlanV1.mem_owningLayers_iff`.
-/

set_option autoImplicit false

namespace NNIS

/-- Maximum number of layers accepted by one plan. -/
def maxKvReusePlanLayers : ℕ := 4096

/-- Maximum UTF-8 bytes accepted for plan and model identities. -/
def maxKvReusePlanIdBytes : ℕ := 128

/-- KV cache component addressed by a reuse decision. -/
inductive KvComponent
  | key
  | value
  deriving DecidableEq

def KvComponent.name : KvComponent → String
  | key => "key"
  | value => "value"

/-- Source of one layer's key or value cache. -/
inductive KvLayerSourceV1
  | own
  | reuseFrom (producer : ℕ)
  deriving DecidableEq

/-- Model-declared key/value sources for one layer. -/
structure KvLayerReuseV1 where
  key : KvLayerSourceV1
  value : KvLayerSourceV1
  deriving DecidableEq

/-- Source declared for one component. -/
def KvLayerReuseV1.source (layer : KvLayerReuseV1) : KvComponent → KvLayerSourceV1
  | .key => layer.key
  | .value => layer.value

/-- Fail-closed cross-layer KV reuse-plan errors. -/
inductive KvReusePlanError
  | emptyId (field : String)
  | nonCanonicalId (field : String)
  | idTooLong (field : String) (bytes : ℕ)
  | zeroPlanSchemaVersion
  | noLayers
  | tooManyLayers (layers : ℕ)
  | nonCausalReuse (layer : ℕ) (component : KvComponent) (producer : ℕ)
  | chainedReuse (layer : ℕ) (component : KvComponent) (producer : ℕ)
  | layerOutOfRange (layer layers : ℕ)
  deriving DecidableEq

/-- The text of an error. -/
def KvReusePlanError.text : KvReusePlanError → String
  | emptyId field => s!"{field} must not be empty"
  | nonCanonicalId field => s!"{field} must not have leading or trailing whitespace"
  | idTooLong field bytes => s!"{field} uses {bytes} bytes, maximum is {maxKvReusePlanIdBytes}"
  | zeroPlanSchemaVersion => "KV reuse plan schema version must be non-zero"
  | noLayers => "KV reuse plan must declare at least one layer"
  | tooManyLayers layers =>
    s!"KV reuse plan declares {layers} layers, maximum is {maxKvReusePlanLayers}"
  | nonCausalReuse layer component producer =>
    s!"layer {layer} {component.name} cache reuses non-earlier layer {producer}"
  | chainedReuse layer component producer =>
    s!"layer {layer} {component.name} cache reuses layer {producer}, which does not own it"
  | layerOutOfRange layer layers => s!"layer {layer} is outside the {layers}-layer plan"

namespace CrossLayerKvReusePlanV1

def validateId (field value : String) : Outcome KvReusePlanError PUnit :=
  Str.requireCanonicalId maxKvReusePlanIdBytes (.emptyId field) (.nonCanonicalId field)
    (.idTooLong field) value

/-- Check one component of a layer. -/
def validateSource (layers : List KvLayerReuseV1) (index : ℕ) (layer : KvLayerReuseV1)
    (component : KvComponent) : Outcome KvReusePlanError PUnit :=
  match layer.source component with
  | .own => pure ⟨⟩
  | .reuseFrom producer => do
    .require (producer < index) (.nonCausalReuse index component producer)
    let owner ← .index layers producer
    .require (owner.source component = .own) (.chainedReuse index component producer)

/-- Validate the parts of a plan. -/
def validate (planId modelId : String) (planSchemaVersion : UInt32)
    (layers : List KvLayerReuseV1) : Outcome KvReusePlanError PUnit := do
  validateId "plan_id" planId
  validateId "model_id" modelId
  .require (planSchemaVersion ≠ 0) .zeroPlanSchemaVersion
  .require (layers ≠ []) .noLayers
  .require (layers.length ≤ maxKvReusePlanLayers) (.tooManyLayers layers.length)
  layers.zipIdx.forM fun (layer, index) =>
    [KvComponent.key, .value].forM (validateSource layers index layer)

end CrossLayerKvReusePlanV1

/-- Validated, immutable cross-layer KV reuse plan supplied by a model owner. -/
structure CrossLayerKvReusePlanV1 where
  planId : String
  modelId : String
  planSchemaVersion : UInt32
  layers : List KvLayerReuseV1
  valid : CrossLayerKvReusePlanV1.validate planId modelId planSchemaVersion layers = .ok ⟨⟩
  deriving DecidableEq

namespace CrossLayerKvReusePlanV1

/-- Validate a model-supplied plan. -/
def new (planId modelId : String) (planSchemaVersion : UInt32) (layers : List KvLayerReuseV1) :
    Outcome KvReusePlanError CrossLayerKvReusePlanV1 :=
  match h : validate planId modelId planSchemaVersion layers with
  | .error e => .error e
  | .ok _ => .ok ⟨planId, modelId, planSchemaVersion, layers, h⟩

variable (plan : CrossLayerKvReusePlanV1)

/-- Number of layers declared by the plan. -/
def layerCount : ℕ := plan.layers.length

/-- Declared sources for one layer. -/
def layer (layer : ℕ) : Outcome KvReusePlanError KvLayerReuseV1 :=
  .okOr plan.layers[layer]? (.layerOutOfRange layer plan.layers.length)

/-- Layer that owns the cache read by a layer for a component. -/
def owner (layer : ℕ) (component : KvComponent) : Outcome KvReusePlanError ℕ := do
  let declared ← plan.layer layer
  pure <| match declared.source component with
    | .own => layer
    | .reuseFrom producer => producer

/-- Layers owning a cache for a component, in increasing order. -/
def owningLayers (component : KvComponent) : List ℕ :=
  (plan.layers.zipIdx.filter fun entry => entry.1.source component = .own).map Prod.snd

/-- Number of logical caches the plan declares for a component. -/
def ownedCount (component : KvComponent) : ℕ :=
  (plan.layers.filter fun layer => layer.source component = .own).length

/-! ### Owners -/

/-- A layer of the plan owns a component. -/
def Owns (layer : ℕ) (component : KvComponent) : Prop :=
  ∃ declared, plan.layers[layer]? = some declared ∧ declared.source component = .own

theorem mem_owningLayers_iff {layer : ℕ} {component : KvComponent} :
    layer ∈ plan.owningLayers component ↔ plan.Owns layer component := by
  simp only [owningLayers, List.mem_map, List.mem_filter, Prod.exists, decide_eq_true_eq,
    exists_eq_right, List.mk_mem_zipIdx_iff_getElem?]
  rfl

/-- What the validation says of a layer. -/
private theorem owns_of_reuseFrom {layer producer : ℕ} {component : KvComponent}
    {declared : KvLayerReuseV1} (hlayer : plan.layers[layer]? = some declared)
    (hsource : declared.source component = .reuseFrom producer) :
    producer < layer ∧ plan.Owns producer component := by
  have h := plan.valid
  simp only [validate, Except.bind_eq_ok_iff, Outcome.forM_eq_ok_iff] at h
  obtain ⟨_, -, _, -, _, -, _, -, _, -, hlayers⟩ := h
  have hmem : component ∈ [KvComponent.key, .value] := by cases component <;> decide
  have hcheck := hlayers (declared, layer) (List.mk_mem_zipIdx_iff_getElem?.2 hlayer) component hmem
  simp only [validateSource, hsource, Except.bind_eq_ok_iff, Outcome.require_eq_ok_iff,
    Outcome.index_eq_ok_iff] at hcheck
  obtain ⟨_, hlt, owner, howner, hown⟩ := hcheck
  exact ⟨hlt, owner, howner, hown⟩

/-- The owner of a layer of the plan exists, is not later than the layer and owns the component. -/
theorem exists_owner {layer : ℕ} (h : layer < plan.layerCount) (component : KvComponent) :
    ∃ owner, plan.owner layer component = .ok owner ∧ owner ≤ layer ∧
      plan.Owns owner component := by
  have hlayer := List.getElem?_eq_getElem h
  rw [owner, CrossLayerKvReusePlanV1.layer, hlayer]
  cases hsource : plan.layers[layer].source component with
  | own =>
    refine ⟨layer, ?_, Nat.le_refl layer, _, hlayer, hsource⟩
    simp only [Outcome.okOr, Except.ok_bind, hsource]
    rfl
  | reuseFrom producer =>
    obtain ⟨hlt, howns⟩ := plan.owns_of_reuseFrom hlayer hsource
    refine ⟨producer, ?_, Nat.le_of_lt hlt, howns⟩
    simp only [Outcome.okOr, Except.ok_bind, hsource]
    rfl

/-- A layer that owns a component is its own owner. -/
theorem Owns.owner_eq {plan : CrossLayerKvReusePlanV1} {layer : ℕ} {component : KvComponent}
    (h : plan.Owns layer component) : plan.owner layer component = .ok layer := by
  obtain ⟨declared, hlayer, hown⟩ := h
  simp only [owner, CrossLayerKvReusePlanV1.layer, hlayer, Outcome.okOr, Except.ok_bind, hown]
  rfl

end CrossLayerKvReusePlanV1

end NNIS
