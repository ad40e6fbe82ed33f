import NNIS.Core.PortableSession
import NNIS.Cpu.Fp4Projection

/-!
# The FP4 shadow of a KV cache

The shadow storage of `nnis-cpu/src/kv_fp4_shadow.rs`: per layer the packed codes and the scales of
the committed rows. A synchronization encodes the layers one after the other and stores each at
once, so a layer whose encoding is refused leaves the earlier ones replaced. Its accounting of bytes
is left out.

A synchronization that returns leaves a shadow each layer of which is decoded to the projection of
the rows of the cache. One that is refused at a layer has already replaced the layers before it: it
leaves the shadow as it was exactly when these held their new codes and scales before.

## Main definitions

* `PortableFp4KvShadowV1`, `PortableFp4KvShadowV1.new`.
* `PortableFp4KvShadowV1.syncFromDense`, `PortableFp4KvShadowV1.decodeLayer`.
* `PortableFp4KvShadowV1.SyncContract` — a synchronization mirrors the cache or changes nothing.
* `PortableFp4KvShadowV1.EarlierLayersKept` — the layers before a refused one keep their codes.

## Main results

* `PortableFp4KvShadowV1.syncFromDense_spec` — what a synchronization leaves.
* `PortableFp4KvShadowV1.syncContract_iff` — when it keeps to the contract.
-/

set_option autoImplicit false

namespace NNIS

/-- Per-layer FP4 shadow mirroring a dense portable KV cache. -/
structure PortableFp4KvShadowV1 where
  groupSize : UInt32
  scaleEncoding : Fp4ScaleEncodingV1
  layers : ℕ
  capacity : ℕ
  rowWidth : ℕ
  length : ℕ
  layerCodes : List (List UInt8)
  layerScales : List (List UInt8)
  length_layerCodes : layerCodes.length = layers
  length_layerScales : layerScales.length = layers

/-- Report an FP4 error as an error of a session. -/
def shadowError (action : String) (e : Stop CpuFp4Error) : Stop PortableSessionError :=
  match e with
  | .error error => .error (.backend s!"FP4 shadow {action} failed: {error.text}")
  | .panic => .panic

namespace PortableFp4KvShadowV1

/-- Build an empty shadow for a mode, matching the geometry of a cache. -/
def new (cache : PortableKvCacheV1) (mode : PortableKvStorageModeV1) :
    Outcome PortableSessionError (Option PortableFp4KvShadowV1) :=
  match mode with
  | .denseF32 => pure none
  | .fp4E2M1 groupSize scaleEncoding => do
    let _ ← mode.validateForRowWidth cache.rowWidth
    pure (some
      { groupSize, scaleEncoding
        layers := cache.layers
        capacity := cache.capacity
        rowWidth := cache.rowWidth
        length := 0
        layerCodes := List.replicate cache.layers []
        layerScales := List.replicate cache.layers []
        length_layerCodes := List.length_replicate
        length_layerScales := List.length_replicate })

variable (shadow : PortableFp4KvShadowV1)

/-- The shadow without committed rows. -/
def clear : PortableFp4KvShadowV1 :=
  { shadow with
    length := 0
    layerCodes := shadow.layerCodes.map fun _ => []
    layerScales := shadow.layerScales.map fun _ => []
    length_layerCodes := by rw [List.length_map, shadow.length_layerCodes]
    length_layerScales := by rw [List.length_map, shadow.length_layerScales] }

/-- The shadow with the codes and the scales of a layer replaced. -/
def store (layer : ℕ) (block : CpuFp4E2M1KvBlockV1) : PortableFp4KvShadowV1 :=
  { shadow with
    layerCodes := shadow.layerCodes.set layer block.codes
    layerScales := shadow.layerScales.set layer block.scales
    length_layerCodes := by rw [List.length_set, shadow.length_layerCodes]
    length_layerScales := by rw [List.length_set, shadow.length_layerScales] }

/-- The layout of a number of rows of the shadow. -/
def layout (rows : ℕ) : Outcome PortableSessionError Fp4E2M1KvLayoutV1 :=
  Outcome.wrap (fun error => .backend s!"FP4 shadow layout failed: {Fp4LayoutError.text error}")
    (Fp4E2M1KvLayoutV1.new (UInt64.ofNat rows) (UInt32.ofNat shadow.rowWidth) shadow.groupSize
      shadow.scaleEncoding)

/-- A computation on a shadow that asks the host for memory. -/
abbrev ShadowM (α : Type) :=
  Fallible (PortableFp4KvShadowV1 × Allocator) (Stop PortableSessionError) α

/-- Encode the committed rows of a layer and store them. -/
def syncLayer (log2Ceil : F64 → ℤ) (cache : PortableKvCacheV1) (layout : Fp4E2M1KvLayoutV1)
    (layer : ℕ) : ShadowM PUnit := do
  let values ← .ofExcept (cache.layerPrefix layer)
  let block ← ((CpuFp4E2M1KvBlockV1.encode log2Ceil layout values).mapError
    (shadowError "encode")).zoom Prod.snd fun host s => (s.1, host)
  .modify fun s => (s.1.store layer block, s.2)

/-- Re-encode every committed dense row into the FP4 shadow. -/
def syncFromDense (log2Ceil : F64 → ℤ) (cache : PortableKvCacheV1) : ShadowM PUnit := do
  let (shadow, _) ← .get
  .ofExcept (Outcome.require (cache.layers = shadow.layers ∧ cache.capacity = shadow.capacity ∧
      cache.rowWidth = shadow.rowWidth)
    (.invalid "FP4 shadow geometry does not match dense portable KV cache"))
  let length := cache.length
  if length = 0 then .modify fun s => (s.1.clear, s.2)
  else do
    .ofExcept (Outcome.require (length < wordLimit)
      (.invalid "portable FP4 shadow length exceeds u64"))
    .ofExcept (Outcome.require (shadow.rowWidth < 2 ^ 32)
      (.invalid "portable FP4 shadow row width exceeds u32"))
    let layout ← .ofExcept (shadow.layout length)
    Fallible.forRange shadow.layers fun layer => syncLayer log2Ceil cache layout layer
    .modify fun s => ({ s.1 with length }, s.2)

/-- Decode the shadow of one layer back to dense values. -/
def decodeLayer (layer : ℕ) : Fallible Allocator (Stop PortableSessionError) (List F32) := do
  .ofExcept (Outcome.require (layer < shadow.layers)
    (.invalid "FP4 shadow layer index out of range"))
  if shadow.length = 0 then pure []
  else do
    let layout ← .ofExcept (shadow.layout shadow.length)
    let codes ← .ofExcept (Outcome.index shadow.layerCodes layer)
    let scales ← .ofExcept (Outcome.index shadow.layerScales layer)
    let block ← (Fallible.ofExcept (CpuFp4E2M1KvBlockV1.fromParts layout codes scales)).mapError
      (shadowError "from_parts")
    block.decode.mapError (shadowError "decode")

/-- The codes of one layer. -/
def codes (layer : ℕ) : Outcome PortableSessionError (List UInt8) :=
  .okOr shadow.layerCodes[layer]? (.invalid "FP4 shadow layer index out of range")

/-- The scales of one layer. -/
def scales (layer : ℕ) : Outcome PortableSessionError (List UInt8) :=
  .okOr shadow.layerScales[layer]? (.invalid "FP4 shadow layer index out of range")

/-- The shape of the shadow of a number of rows. -/
def shape (shadow : PortableFp4KvShadowV1) (rows : ℕ) : Fp4Shape :=
  ⟨rows, shadow.rowWidth, shadow.groupSize.toNat, shadow.scaleEncoding⟩

/-- A layer of the shadow is decoded to the projection of its rows in the cache, unless the host
refuses the memory. -/
def Mirrors (shadow : PortableFp4KvShadowV1) (cache : PortableKvCacheV1) (layer : ℕ) : Prop :=
  ∀ host, ((shadow.decodeLayer layer).run host).1 =
      .ok ((shadow.shape cache.length).projection (cache.layerRows layer)) ∨
    (∃ error, host.answer 0 (cache.length * cache.rowWidth) = .error error) ∧
      ((shadow.decodeLayer layer).run host).1 = .error (shadowError "decode"
        (.error .allocationFailed))

/-- A synchronization that fails leaves the shadow, and with it what every layer is decoded to, as
it was; after one that returns every layer mirrors the cache. -/
def SyncContract (log2Ceil : F64 → ℤ) (shadow : PortableFp4KvShadowV1) (cache : PortableKvCacheV1)
    (host : Allocator) : Prop :=
  Fallible.Post
    (fun _ (s : PortableFp4KvShadowV1 × Allocator) =>
      s.1.length = cache.length ∧ ∀ layer < cache.layers, s.1.Mirrors cache layer)
    (fun _ s => s.1 = shadow ∧ ∀ layer, s.1.decodeLayer layer = shadow.decodeLayer layer)
    ((syncFromDense log2Ceil cache).run (shadow, host))

/-- The answers of the host after those for a number of layers. -/
def hostAfter (host : Allocator) : ℕ → Allocator
  | 0 => host
  | n + 1 => (hostAfter host n).rest.rest

/-- The codes and the scales of a layer are those to which its rows are encoded. -/
def Holds (log2Ceil : F64 → ℤ) (shadow : PortableFp4KvShadowV1) (layout : Fp4E2M1KvLayoutV1)
    (cache : PortableKvCacheV1) (layer : ℕ) : Prop :=
  ∃ block, ((CpuFp4E2M1KvBlockV1.encode log2Ceil layout (cache.layerRows layer)).run .granting).1 =
      .ok block ∧
    shadow.layerCodes[layer]? = some block.codes ∧ shadow.layerScales[layer]? = some block.scales

/-- A layer is the first one whose encoding is refused. -/
def FirstRefused (host : Allocator) (layout : Fp4E2M1KvLayoutV1) (cache : PortableKvCacheV1)
    (layer : ℕ) : Prop :=
  CpuFp4E2M1KvBlockV1.Refused (hostAfter host layer) layout (cache.layerRows layer) ∧
    ∀ earlier < layer,
      ¬ CpuFp4E2M1KvBlockV1.Refused (hostAfter host earlier) layout (cache.layerRows earlier)

/-- Before the first layer whose encoding is refused every layer already holds its new codes and
scales. -/
def EarlierLayersKept (log2Ceil : F64 → ℤ) (shadow : PortableFp4KvShadowV1)
    (cache : PortableKvCacheV1) (host : Allocator) : Prop :=
  cache.layers = shadow.layers → cache.capacity = shadow.capacity →
    cache.rowWidth = shadow.rowWidth → cache.length ≠ 0 →
      ∀ layout, shadow.layout cache.length = .ok layout →
        ∀ layer < cache.layers, FirstRefused host layout cache layer →
          ∀ earlier < layer, shadow.Holds log2Ceil layout cache earlier

/-! ### The loop over the layers -/

/-- The first layers of a shadow are synchronized and the others are as they were. -/
private structure SyncedTo (log2Ceil : F64 → ℤ) (layout : Fp4E2M1KvLayoutV1)
    (cache : PortableKvCacheV1) (shadow : PortableFp4KvShadowV1) (count : ℕ)
    (shadow' : PortableFp4KvShadowV1) : Prop where
  geometry : shadow'.groupSize = shadow.groupSize ∧ shadow'.scaleEncoding = shadow.scaleEncoding ∧
    shadow'.layers = shadow.layers ∧ shadow'.capacity = shadow.capacity ∧
      shadow'.rowWidth = shadow.rowWidth ∧ shadow'.length = shadow.length
  holds : ∀ layer < count, shadow'.Holds log2Ceil layout cache layer
  rest : ∀ layer, count ≤ layer → shadow'.layerCodes[layer]? = shadow.layerCodes[layer]? ∧
    shadow'.layerScales[layer]? = shadow.layerScales[layer]?

theorem ext {shadow shadow' : PortableFp4KvShadowV1}
    (hgeometry : shadow'.groupSize = shadow.groupSize ∧
      shadow'.scaleEncoding = shadow.scaleEncoding ∧ shadow'.layers = shadow.layers ∧
        shadow'.capacity = shadow.capacity ∧ shadow'.rowWidth = shadow.rowWidth ∧
          shadow'.length = shadow.length)
    (hcodes : shadow'.layerCodes = shadow.layerCodes)
    (hscales : shadow'.layerScales = shadow.layerScales) : shadow' = shadow := by
  obtain ⟨h₁, h₂, h₃, h₄, h₅, h₆⟩ := hgeometry
  cases shadow
  cases shadow'
  dsimp only at h₁ h₂ h₃ h₄ h₅ h₆ hcodes hscales
  subst h₁ h₂ h₃ h₄ h₅ h₆ hcodes hscales
  rfl

/-- The shadow is as it was exactly when the synchronized layers held their new codes before. -/
private theorem SyncedTo.eq_iff {log2Ceil : F64 → ℤ} {layout : Fp4E2M1KvLayoutV1}
    {cache : PortableKvCacheV1} {shadow shadow' : PortableFp4KvShadowV1} {count : ℕ}
    (h : SyncedTo log2Ceil layout cache shadow count shadow') :
    shadow' = shadow ↔ ∀ layer < count, shadow.Holds log2Ceil layout cache layer := by
  constructor
  · rintro rfl
    exact h.holds
  · intro hold
    refine ext h.geometry (List.ext_getElem? fun layer => ?_) (List.ext_getElem? fun layer => ?_)
    · rcases Nat.lt_or_ge layer count with hlt | hge
      · obtain ⟨block, hblock, hcodes, -⟩ := h.holds layer hlt
        obtain ⟨block', hblock', hcodes', -⟩ := hold layer hlt
        rw [hcodes, hcodes', Except.ok.inj (hblock.symm.trans hblock')]
      · exact (h.rest layer hge).1
    · rcases Nat.lt_or_ge layer count with hlt | hge
      · obtain ⟨block, hblock, -, hscales⟩ := h.holds layer hlt
        obtain ⟨block', hblock', -, hscales'⟩ := hold layer hlt
        rw [hscales, hscales', Except.ok.inj (hblock.symm.trans hblock')]
      · exact (h.rest layer hge).2

private theorem SyncedTo.store {log2Ceil : F64 → ℤ} {layout : Fp4E2M1KvLayoutV1}
    {cache : PortableKvCacheV1} {shadow shadow' : PortableFp4KvShadowV1} {count : ℕ}
    (h : SyncedTo log2Ceil layout cache shadow count shadow') (hcount : count < shadow.layers)
    {block : CpuFp4E2M1KvBlockV1}
    (hblock : ((CpuFp4E2M1KvBlockV1.encode log2Ceil layout (cache.layerRows count)).run
      .granting).1 = .ok block) :
    SyncedTo log2Ceil layout cache shadow (count + 1) (shadow'.store count block) where
  geometry := h.geometry
  holds layer hlayer := by
    have hlayers : shadow'.layers = shadow.layers := h.geometry.2.2.1
    rcases Nat.lt_succ_iff_lt_or_eq.1 hlayer with hlt | rfl
    · obtain ⟨block', hblock', hcodes, hscales⟩ := h.holds layer hlt
      refine ⟨block', hblock', ?_, ?_⟩
      · rw [PortableFp4KvShadowV1.store, List.getElem?_set_ne hlt.ne', hcodes]
      · rw [PortableFp4KvShadowV1.store, List.getElem?_set_ne hlt.ne', hscales]
    · refine ⟨block, hblock, ?_, ?_⟩
      · rw [PortableFp4KvShadowV1.store, List.getElem?_set_self
          (by rw [shadow'.length_layerCodes, hlayers]; exact hcount)]
      · rw [PortableFp4KvShadowV1.store, List.getElem?_set_self
          (by rw [shadow'.length_layerScales, hlayers]; exact hcount)]
  rest layer hlayer := by
    obtain ⟨hcodes, hscales⟩ := h.rest layer (Nat.le_of_succ_le hlayer)
    refine ⟨?_, ?_⟩
    · rw [PortableFp4KvShadowV1.store, List.getElem?_set_ne (Nat.ne_of_lt hlayer), hcodes]
    · rw [PortableFp4KvShadowV1.store, List.getElem?_set_ne (Nat.ne_of_lt hlayer), hscales]

theorem toFp4Shape_of_layout {shadow : PortableFp4KvShadowV1} {rows : ℕ}
    {layout : Fp4E2M1KvLayoutV1} (h : shadow.layout rows = .ok layout) (hrows : rows < wordLimit)
    (hwidth : shadow.rowWidth < 2 ^ 32) : layout.toFp4Shape = shadow.shape rows := by
  have hnew : Fp4E2M1KvLayoutV1.new (UInt64.ofNat rows) (UInt32.ofNat shadow.rowWidth)
      shadow.groupSize shadow.scaleEncoding = .ok layout := by
    rw [PortableFp4KvShadowV1.layout] at h
    exact Outcome.wrap_eq_ok_iff.1 h
  rw [Fp4E2M1KvLayoutV1.toFp4Shape_of_new hnew, shape, UInt64.toNat_ofNat_of_lt' hrows,
    UInt32.toNat_ofNat_of_lt' hwidth]

section Loop

variable {log2Ceil : F64 → ℤ} {layout : Fp4E2M1KvLayoutV1} {cache : PortableKvCacheV1}
  {shadow : PortableFp4KvShadowV1}

/-- One more layer is synchronized, or its encoding is refused and the shadow stays as it is. -/
private theorem syncLayer_spec (hrows : layout.rows = cache.length)
    (hwidth : layout.rowWidth = cache.rowWidth) (hlayers : cache.layers = shadow.layers)
    (host : Allocator) {layer : ℕ} (hlayer : layer < shadow.layers) :
    Fallible.Spec
      (fun s => SyncedTo log2Ceil layout cache shadow layer s.1 ∧ s.2 = hostAfter host layer ∧
        ∀ earlier < layer, ¬ CpuFp4E2M1KvBlockV1.Refused (hostAfter host earlier) layout
          (cache.layerRows earlier))
      (syncLayer log2Ceil cache layout layer)
      (fun _ s => SyncedTo log2Ceil layout cache shadow (layer + 1) s.1 ∧
        s.2 = hostAfter host (layer + 1) ∧
        ∀ earlier < layer + 1, ¬ CpuFp4E2M1KvBlockV1.Refused (hostAfter host earlier) layout
          (cache.layerRows earlier))
      fun _ s => ∃ layer < shadow.layers, FirstRefused host layout cache layer ∧
        SyncedTo log2Ceil layout cache shadow layer s.1 := by
  rintro ⟨shadow', _⟩ ⟨hsynced, rfl, haccepted⟩
  have hcacheLayer : layer < cache.layers := hlayers ▸ hlayer
  obtain ⟨hrefused, hencoded⟩ := CpuFp4E2M1KvBlockV1.run_encode log2Ceil layout
    (by rw [cache.length_layerRows hcacheLayer, hrows, hwidth]) (cache.finite_layerRows layer)
    (hostAfter host layer)
  rw [syncLayer, cache.layerPrefix_eq hcacheLayer, Fallible.ofExcept_ok_bind]
  by_cases h : CpuFp4E2M1KvBlockV1.Refused (hostAfter host layer) layout (cache.layerRows layer)
  · obtain ⟨e, host', hrun⟩ := hrefused h
    have hstep : (((CpuFp4E2M1KvBlockV1.encode log2Ceil layout (cache.layerRows layer)).mapError
        (shadowError "encode")).zoom Prod.snd fun host (s : PortableFp4KvShadowV1 × Allocator) =>
          (s.1, host)).run (shadow', hostAfter host layer) =
        (.error (shadowError "encode" e), (shadow', host')) := by
      rw [Fallible.run_zoom, Fallible.run_mapError, hrun]
      rfl
    rw [Fallible.run_bind_error hstep]
    exact ⟨layer, hlayer, ⟨h, haccepted⟩, hsynced⟩
  · obtain ⟨block, -, -, hblock, hrun⟩ := hencoded h
    have hstep : (((CpuFp4E2M1KvBlockV1.encode log2Ceil layout (cache.layerRows layer)).mapError
        (shadowError "encode")).zoom Prod.snd fun host (s : PortableFp4KvShadowV1 × Allocator) =>
          (s.1, host)).run (shadow', hostAfter host layer) =
        (.ok block, (shadow', hostAfter host (layer + 1))) := by
      rw [Fallible.run_zoom, Fallible.run_mapError, hrun]
      rfl
    rw [Fallible.run_bind_ok hstep]
    refine ⟨hsynced.store hlayer hblock, rfl, fun earlier hearlier => ?_⟩
    rcases Nat.lt_succ_iff_lt_or_eq.1 hearlier with hlt | rfl
    · exact haccepted earlier hlt
    · exact h

/-- A synchronized layer is decoded to the projection of its rows. -/
private theorem Holds.mirrors {shadow' : PortableFp4KvShadowV1} {layer : ℕ}
    (h : shadow'.Holds log2Ceil layout cache layer) (hlayer : layer < shadow'.layers)
    (hlength : shadow'.length = cache.length) (hpos : cache.length ≠ 0)
    (hlayout : shadow'.layout cache.length = .ok layout)
    (hshape : layout.toFp4Shape = shadow'.shape cache.length)
    (hwidth : shadow'.rowWidth = cache.rowWidth) : shadow'.Mirrors cache layer := by
  obtain ⟨block, hblock, hcodes, hscales⟩ := h
  obtain ⟨rfl, hencodes⟩ : block.layout = layout ∧ block.Encodes (cache.layerRows layer) := by
    rcases hrun : (CpuFp4E2M1KvBlockV1.encode log2Ceil layout (cache.layerRows layer)).run
      .granting with ⟨result, host'⟩
    rw [hrun] at hblock
    dsimp only at hblock
    rw [hblock] at hrun
    exact (CpuFp4E2M1KvBlockV1.encode_spec log2Ceil layout (cache.layerRows layer) .granting).ok rfl
      hrun
  intro host
  have hindexCodes : (Outcome.index shadow'.layerCodes layer :
      Outcome PortableSessionError _) = .ok block.codes := by
    rw [Outcome.index, hcodes]
  have hindexScales : (Outcome.index shadow'.layerScales layer :
      Outcome PortableSessionError _) = .ok block.scales := by
    rw [Outcome.index, hscales]
  have hparts : CpuFp4E2M1KvBlockV1.fromParts block.layout block.codes block.scales = .ok block :=
    CpuFp4E2M1KvBlockV1.fromParts_eq_ok_iff.2 ⟨rfl, hencodes.wellFormed⟩
  have hdecode : (shadow'.decodeLayer layer).run host =
      (block.decode.mapError (shadowError "decode")).run host := by
    rw [decodeLayer, Outcome.require_of _ hlayer, Fallible.ofExcept_ok_bind, hlength, if_neg hpos,
      hlayout, Fallible.ofExcept_ok_bind, hindexCodes, Fallible.ofExcept_ok_bind, hindexScales,
      Fallible.ofExcept_ok_bind, hparts]
    rfl
  have hrun := hencodes.run_decode host
  have hsize : block.layout.rows * block.layout.rowWidth = cache.length * cache.rowWidth := by
    rw [hshape, ← hwidth]
    rfl
  rw [hsize, hshape] at hrun
  rw [hdecode, Fallible.run_mapError]
  rcases hrun with ⟨-, hok⟩ | ⟨hrefuse, herror⟩
  · refine Or.inl ?_
    dsimp only
    rw [hok]
    rfl
  · refine Or.inr ⟨hrefuse, ?_⟩
    dsimp only
    rw [herror]
    rfl

end Loop

/-! ### Synchronization -/

/-- What a synchronization leaves: a mirror of the cache no layer of which is refused, the shadow as
it was when nothing is encoded, or the layers before the first refused one replaced. -/
theorem syncFromDense_spec (log2Ceil : F64 → ℤ) (shadow : PortableFp4KvShadowV1)
    (cache : PortableKvCacheV1) (host : Allocator) :
    Fallible.Spec (fun s => s = (shadow, host)) (syncFromDense log2Ceil cache)
      (fun _ s => (s.1.length = cache.length ∧ ∀ layer < cache.layers, s.1.Mirrors cache layer) ∧
        EarlierLayersKept log2Ceil shadow cache host)
      fun _ s => (s.1 = shadow ∧ EarlierLayersKept log2Ceil shadow cache host) ∨
        (s.1 = shadow ↔ EarlierLayersKept log2Ceil shadow cache host) := by
  have hlengthLt : cache.length < wordLimit :=
    Nat.lt_of_le_of_lt (cache.length_le.trans cache.capacity_mem.2) (by decide)
  have hwidthLt : cache.rowWidth < 2 ^ 32 := Nat.lt_of_le_of_lt cache.rowWidth_mem.2 (by decide)
  rw [syncFromDense]
  refine Fallible.Spec.get_bind ?_
  dsimp only
  by_cases hgeometry : cache.layers = shadow.layers ∧ cache.capacity = shadow.capacity ∧
      cache.rowWidth = shadow.rowWidth
  swap
  · rw [Outcome.require_of_not _ hgeometry]
    rintro s rfl
    exact Or.inl ⟨rfl, fun h₁ h₂ h₃ => absurd ⟨h₁, h₂, h₃⟩ hgeometry⟩
  obtain ⟨hlayers, hcapacity, hwidth⟩ := hgeometry
  rw [Outcome.require_of _ ⟨hlayers, hcapacity, hwidth⟩, Fallible.ofExcept_ok_bind]
  by_cases hzero : cache.length = 0
  · rw [if_pos hzero]
    rintro s rfl
    refine ⟨⟨hzero.symm, fun layer hlayer host => Or.inl ?_⟩, fun _ _ _ hne => absurd hzero hne⟩
    have hrange : (shadow.clear.shape cache.length).projection (cache.layerRows layer) = [] := by
      rw [Fp4Shape.projection, shape, hzero, Nat.zero_mul]
      rfl
    have hlayer' : layer < shadow.clear.layers := hlayers ▸ hlayer
    rw [hrange, decodeLayer, Outcome.require_of _ hlayer', Fallible.ofExcept_ok_bind]
    rfl
  rw [if_neg hzero, Outcome.require_of _ hlengthLt, Fallible.ofExcept_ok_bind,
    Outcome.require_of _ (hwidth ▸ hwidthLt), Fallible.ofExcept_ok_bind]
  cases hlayout : shadow.layout cache.length with
  | error e =>
    rintro s rfl
    exact Or.inl ⟨rfl, fun _ _ _ _ layout hok => by cases hlayout.symm.trans hok⟩
  | ok layout =>
    have hshape := toFp4Shape_of_layout hlayout hlengthLt (hwidth ▸ hwidthLt)
    have hrows : layout.rows = cache.length := by rw [hshape]; rfl
    have hcols : layout.rowWidth = cache.rowWidth := by rw [hshape, hwidth]; rfl
    rw [Fallible.ofExcept_ok_bind]
    have hloop := Fallible.Spec.forRange (fun layer (s : PortableFp4KvShadowV1 × Allocator) =>
      SyncedTo log2Ceil layout cache shadow layer s.1 ∧ s.2 = hostAfter host layer ∧
        ∀ earlier < layer, ¬ CpuFp4E2M1KvBlockV1.Refused (hostAfter host earlier) layout
          (cache.layerRows earlier)) shadow.layers
      fun layer hlayer => syncLayer_spec hrows hcols hlayers host hlayer
    refine (hloop.conseq ?_ (fun _ _ h => h) ?_).bind fun _ => Fallible.Spec.modify _ ?_
    · rintro s rfl
      exact ⟨⟨⟨rfl, rfl, rfl, rfl, rfl, rfl⟩, fun _ h => absurd h (Nat.not_lt_zero _),
        fun _ _ => ⟨rfl, rfl⟩⟩, rfl, fun _ h => absurd h (Nat.not_lt_zero _)⟩
    · rintro e s ⟨layer, hlayer, hfirst, hsynced⟩
      refine Or.inr (hsynced.eq_iff.trans
        ⟨fun hholds _ _ _ _ layout' hlayout' layer' _ hfirst' => ?_,
        fun hkept => hkept hlayers hcapacity hwidth hzero layout hlayout layer (hlayers ▸ hlayer)
          hfirst⟩)
      obtain rfl := Except.ok.inj (hlayout.symm.trans hlayout')
      -- The first refused layer is unique.
      have hsame : layer' = layer := by
        rcases Nat.lt_trichotomy layer' layer with hlt | heq | hgt
        · exact absurd hfirst'.1 (hfirst.2 layer' hlt)
        · exact heq
        · exact absurd hfirst.1 (hfirst'.2 layer hgt)
      rw [hsame]
      exact hholds
    · rintro ⟨shadow', _⟩ ⟨hsynced, -, haccepted⟩
      obtain ⟨h₁, h₂, h₃, h₄, h₅, h₆⟩ := hsynced.geometry
      refine ⟨⟨rfl, fun layer hlayer => ?_⟩,
        fun _ _ _ _ layout' hlayout' layer hlayer hfirst => ?_⟩
      · have hlt : layer < shadow.layers := hlayers ▸ hlayer
        have hholds := hsynced.holds layer hlt
        have hholds' : ({ shadow' with length := cache.length } : PortableFp4KvShadowV1).Holds
            log2Ceil layout cache layer := hholds
        refine hholds'.mirrors (h₃.symm ▸ hlt) rfl hzero ?_ ?_ (h₅.trans hwidth.symm)
        · rw [← hlayout, PortableFp4KvShadowV1.layout, PortableFp4KvShadowV1.layout, h₁, h₂, h₅]
        · rw [hshape, shape, shape, h₁, h₂, h₅]
      · obtain rfl := Except.ok.inj (hlayout.symm.trans hlayout')
        exact absurd hfirst.1 (haccepted layer (hlayers ▸ hlayer))

/-- A synchronization keeps to the contract exactly when before the first layer whose encoding is
refused every layer already held its new codes and scales. -/
theorem syncContract_iff (log2Ceil : F64 → ℤ) (shadow : PortableFp4KvShadowV1)
    (cache : PortableKvCacheV1) (host : Allocator) :
    SyncContract log2Ceil shadow cache host ↔ EarlierLayersKept log2Ceil shadow cache host := by
  have hspec := syncFromDense_spec log2Ceil shadow cache host (shadow, host) rfl
  rw [SyncContract]
  rcases hrun : (syncFromDense log2Ceil cache).run (shadow, host) with ⟨e | _, s⟩
  · rw [hrun] at hspec
    rcases hspec with ⟨hsame, hkept⟩ | hiff
    · exact iff_of_true ⟨hsame, fun layer => by rw [hsame]⟩ hkept
    · exact ⟨fun h => hiff.1 h.1, fun hkept => ⟨hiff.2 hkept, fun layer => by rw [hiff.2 hkept]⟩⟩
  · rw [hrun] at hspec
    exact iff_of_true hspec.1 hspec.2

/-- A synchronization that fails and has replaced codes does not keep to the contract. -/
private theorem not_syncContract {log2Ceil : F64 → ℤ} {shadow : PortableFp4KvShadowV1}
    {cache : PortableKvCacheV1} {host : Allocator}
    (hfailed : ((syncFromDense log2Ceil cache).run (shadow, host)).1.isOk = false)
    (hcodes : ((syncFromDense log2Ceil cache).run (shadow, host)).2.1.layerCodes ≠
      shadow.layerCodes) :
    ¬ SyncContract log2Ceil shadow cache host := by
  intro h
  rw [SyncContract] at h
  rcases hrun : (syncFromDense log2Ceil cache).run (shadow, host) with ⟨e | _, s⟩
  · rw [hrun] at h hcodes
    exact hcodes (congrArg layerCodes h.1)
  · rw [hrun] at hfailed
    exact nomatch hfailed

/-- A committed row in each of two layers, the second of which holds the largest finite value. -/
private def largestInSecond : PortableKvCacheV1 where
  layers := 2
  capacity := 1
  rowWidth := 1
  length := 1
  mode := .fp4E2M1 2 .e8m0
  storage := [.ofBits 0x3F800000, .ofBits 0x7F7FFFFF]
  layers_mem := by decide
  capacity_mem := by decide
  rowWidth_mem := by decide
  length_le := by decide
  length_storage := rfl
  finite_storage := by
    rintro value (_ | ⟨_, _ | ⟨_, h⟩⟩)
    · decide
    · decide
    · exact nomatch h

/-- The empty shadow of two layers of one row. -/
private def emptyShadow : PortableFp4KvShadowV1 where
  groupSize := 2
  scaleEncoding := .e8m0
  layers := 2
  capacity := 1
  rowWidth := 1
  length := 0
  layerCodes := [[], []]
  layerScales := [[], []]
  length_layerCodes := rfl
  length_layerScales := rfl

private theorem new_largestInSecond :
    new largestInSecond (.fp4E2M1 2 .e8m0) = .ok (some emptyShadow) := rfl

private theorem sync_largestInSecond_isOk : ((syncFromDense (fun _ => 0) largestInSecond).run
    (emptyShadow, .granting)).1.isOk = false := by
  decide +kernel

private theorem sync_largestInSecond_codes : ((syncFromDense (fun _ => 0) largestInSecond).run
    (emptyShadow, .granting)).2.1.layerCodes ≠ emptyShadow.layerCodes := by
  decide +kernel

/-- The largest finite value is rounded up to a code whose product with the scale overflows; the
layer before it is already replaced. -/
theorem not_syncContract_largestInSecond : ∃ shadow,
    new largestInSecond (.fp4E2M1 2 .e8m0) = .ok (some shadow) ∧
      ¬ SyncContract (fun _ => 0) shadow largestInSecond .granting :=
  ⟨emptyShadow, new_largestInSecond,
    not_syncContract sync_largestInSecond_isOk sync_largestInSecond_codes⟩

end PortableFp4KvShadowV1

end NNIS
