import NNIS.Kernels.FusedAttentionRegions
import NNIS.Kernels.PairScan

/-!
# What the hosts request of shared memory

The loading of the fused attention kernels, of the reductions and of the selector, with the limits
that they check, and the dynamic shared memory that they request for a launch. A width of a block is
loaded when it is a power of two that the kernels allow; an attention launch is submitted when its
shared memory fits the limit of the kernel. Identities of contexts are not modelled.

The regions of the fused attention kernels, of the argmax kernels and of the kernels of the selector
do not overlap, hold every index that a thread forms, and lie in the bytes that the host requests.
They begin at multiples of the sizes of their elements, but for the indices of the argmax kernels in
a block of one thread: these take eight bytes each and begin after a single value of four.

## Main definitions

* `KernelAttributes` — the limits of a kernel.
* `F32Attention`, `F32Attention.enqueueAttentionFused`,
  `F32Attention.enqueueAttentionFusedMultihead`.
* `F32Reduction.loadWithBlockSize`, `F32TopK.loadWithBlockSize`.
* `F32Reduction.argmaxSharedMemoryBytes`, `F32TopK.scanSharedMemoryBytes`.
* `SharedLayoutsMatch` — the layouts of the three families.

## Main results

* `F32Attention.fusedSharedMemoryBytes_eq_some_iff`, `F32Attention.launch_spec` — what is requested.
* `sharedLayoutsMatch_iff` — the layouts match unless the argmax blocks have one thread.
-/

set_option autoImplicit false

namespace NNIS

/-- The limits of a kernel that hosts read, both 32-bit numbers. -/
structure KernelAttributes where
  maxThreadsPerBlock : UInt32
  maxDynamicSharedMemoryBytes : UInt32

/-- The answer to a query of attributes. -/
abbrev AttributeQuery := Except NnisError KernelAttributes

/-! ### Fused attention -/

/-- Loaded attention kernels: the width of their blocks is a power of two. -/
structure F32Attention where
  blockSize : ℕ
  isPowerOfTwo : blockSize.isPowerOfTwo
  blockSize_lt : blockSize < u32Limit
  fusedAttributes : AttributeQuery

/-- The lengths of the buffers of an attention. -/
structure AttentionLengths where
  queries : ℕ
  keys : ℕ
  values : ℕ
  output : ℕ

/-- The configuration of a launch with one extent. -/
structure AttentionLaunch where
  gridX : ℕ
  blockSize : ℕ
  sharedMemoryBytes : ℕ

namespace F32Attention

/-- Load the kernels; `compiled` are the attributes of the fused and of the scaling kernel. -/
def loadWithBlockSize (compiled : Except NnisError (AttributeQuery × AttributeQuery))
    (blockSize : UInt32) : Except NnisError F32Attention :=
  if h : blockSize.toNat ≠ 0 ∧ blockSize.toNat.isPowerOfTwo then do
    let (fused, scaleCausal) ← compiled
    let attributes ← fused
    if attributes.maxThreadsPerBlock < blockSize then
      .error (.invalidInput (s!"attention block size {blockSize} exceeds function limit " ++
        s!"{attributes.maxThreadsPerBlock}"))
    else do
      let attributesCausal ← scaleCausal
      if attributes.maxThreadsPerBlock < attributesCausal.maxThreadsPerBlock then
        .error (.invalidInput "attention scale-causal kernel exceeds fused thread limit")
      else .ok ⟨blockSize.toNat, h.2, blockSize.toNat_lt, fused⟩
  else
    .error (.invalidInput s!"attention block size {blockSize} is not a non-zero power of two")

variable (attention : F32Attention)

/-- The shared memory of the fused path, in bytes. -/
def fusedSharedMemoryBytes (headDim valueDim : ℕ) : Option ℕ := do
  let threads := attention.blockSize
  let floats ← checkedMul threads headDim
  let floats ← checkedAdd floats (← checkedMul threads valueDim)
  let floats ← checkedAdd floats (← checkedMul threads 2)
  let floats ← checkedAdd floats headDim
  let floats ← checkedAdd floats valueDim
  checkedMul floats 4

/-- Whether the fused path can run. -/
def fusedAvailable (headDim valueDim : ℕ) : Bool :=
  match attention.fusedSharedMemoryBytes headDim valueDim with
  | none => false
  | some required =>
    match attention.fusedAttributes with
    | .error _ => false
    | .ok attributes => required ≤ attributes.maxDynamicSharedMemoryBytes.toNat

/-- The product of two extents of the shape. -/
def extent (x : Except NnisError ℕ) (y : ℕ) : Except NnisError ℕ := do
  orInvalid "attention shape overflows usize" (checkedMul (← x) y)

/-- The checks of the buffers of one head. -/
def validateExecution (shape : AttentionShape) (lengths : AttentionLengths) :
    Except NnisError Unit :=
  if shape.headDim = 0 ∨ shape.kvRows = 0 ∨ shape.valueDim = 0 then
    .error (.invalidInput ("attention requires non-empty keys/head/value dimensions; got " ++
      s!"head_dim={shape.headDim}, kv_rows={shape.kvRows}, value_dim={shape.valueDim}"))
  else do
    let expectedQ ← extent (.ok shape.queryRows) shape.headDim
    let expectedK ← extent (.ok shape.kvRows) shape.headDim
    let expectedV ← extent (.ok shape.kvRows) shape.valueDim
    let expectedO ← extent (.ok shape.queryRows) shape.valueDim
    if lengths.queries ≠ expectedQ then
      .error (.invalidInput (s!"attention queries have {lengths.queries} elements; shape " ++
        s!"({shape.queryRows}, {shape.headDim}) requires {expectedQ}"))
    else if lengths.keys ≠ expectedK then
      .error (.invalidInput (s!"attention keys have {lengths.keys} elements; shape " ++
        s!"({shape.kvRows}, {shape.headDim}) requires {expectedK}"))
    else if lengths.values ≠ expectedV then
      .error (.invalidInput (s!"attention values have {lengths.values} elements; shape " ++
        s!"({shape.kvRows}, {shape.valueDim}) requires {expectedV}"))
    else if lengths.output ≠ expectedO then
      .error (.invalidInput (s!"attention output has {lengths.output} elements; shape " ++
        s!"({shape.queryRows}, {shape.valueDim}) requires {expectedO}"))
    else .ok ⟨⟩

/-- The checks of the buffers of some heads. -/
def validateMultiheadExecution (numHeads : ℕ) (shape : AttentionShape)
    (lengths : AttentionLengths) :
    Except NnisError Unit :=
  if numHeads = 0 then .error (.invalidInput "attention requires at least one head")
  else do
    let expectedQ ← extent (extent (.ok numHeads) shape.queryRows) shape.headDim
    let expectedK ← extent (extent (.ok numHeads) shape.kvRows) shape.headDim
    let expectedV ← extent (extent (.ok numHeads) shape.kvRows) shape.valueDim
    let expectedO ← extent (extent (.ok numHeads) shape.queryRows) shape.valueDim
    if lengths.queries ≠ expectedQ then
      .error (.invalidInput
        (s!"attention queries have {lengths.queries} elements; {numHeads} heads " ++
        s!"of shape ({shape.queryRows}, {shape.headDim}) requires {expectedQ}"))
    else if lengths.keys ≠ expectedK then
      .error (.invalidInput
        (s!"attention keys have {lengths.keys} elements; {numHeads} heads of " ++
        s!"shape ({shape.kvRows}, {shape.headDim}) requires {expectedK}"))
    else if lengths.values ≠ expectedV then
      .error (.invalidInput
        (s!"attention values have {lengths.values} elements; {numHeads} heads " ++
        s!"of shape ({shape.kvRows}, {shape.valueDim}) requires {expectedV}"))
    else if lengths.output ≠ expectedO then
      .error (.invalidInput
        (s!"attention output has {lengths.output} elements; {numHeads} heads " ++
        s!"of shape ({shape.queryRows}, {shape.valueDim}) requires {expectedO}"))
    else .ok ⟨⟩

/-- The checks of the mask and of the shared memory. -/
def validateFused (shape : AttentionShape) (causal : Bool) : Except NnisError Unit :=
  if causal = true ∧ shape.queryRows ≠ shape.kvRows then
    .error (.invalidInput ("causal attention requires query_rows == kv_rows; got " ++
      s!"{shape.queryRows} vs {shape.kvRows}"))
  else if attention.fusedAvailable shape.headDim shape.valueDim = false then
    .error (.invalidInput ("attention fused path needs " ++
      s!"{(attention.fusedSharedMemoryBytes shape.headDim shape.valueDim).getD 0} shared-memory " ++
      s!"bytes for head ({shape.headDim}, {shape.valueDim}) at block {attention.blockSize}"))
  else .ok ⟨⟩

/-- The launch over a grid, with the shared memory of the fused path. -/
def configure (gridX headDim valueDim : ℕ) : Except NnisError (Option AttentionLaunch) := do
  -- The size is known by now: `fusedAvailable` has computed it.
  let sharedMemoryBytes ← orInvalid "validated above"
    (attention.fusedSharedMemoryBytes headDim valueDim)
  if sharedMemoryBytes < u32Limit then .ok (some ⟨gridX, attention.blockSize, sharedMemoryBytes⟩)
  else .error (.invalidInput "attention shared memory exceeds u32")

/-- Submit the fused kernel for one head, unless there are no query rows. -/
def enqueueAttentionFused (shape : AttentionShape) (lengths : AttentionLengths) (causal : Bool) :
    Except NnisError (Option AttentionLaunch) := do
  validateExecution shape lengths
  attention.validateFused shape causal
  if shape.queryRows = 0 then .ok none
  else if u32Limit ≤ shape.queryRows then
    .error (.invalidInput "attention exceeds u32::MAX query rows")
  else attention.configure shape.queryRows shape.headDim shape.valueDim

/-- Submit the fused kernel for some heads, unless there are no query rows. -/
def enqueueAttentionFusedMultihead (numHeads : ℕ) (shape : AttentionShape)
    (lengths : AttentionLengths) (causal : Bool) : Except NnisError (Option AttentionLaunch) := do
  validateMultiheadExecution numHeads shape lengths
  attention.validateFused shape causal
  if shape.queryRows = 0 then .ok none
  else do
    let totalBlocks ← extent (.ok numHeads) shape.queryRows
    if u32Limit ≤ totalBlocks then
      .error (.invalidInput "attention exceeds u32::MAX head-by-query blocks")
    else if u32Limit ≤ numHeads then .error (.invalidInput "attention heads exceed u32")
    else attention.configure totalBlocks shape.headDim shape.valueDim

end F32Attention

/-! ### Reductions -/

/-- The attributes of the kernels of the reductions. -/
structure ReductionModule where
  sum : AttributeQuery
  max : AttributeQuery
  argmaxFirst : AttributeQuery
  argmaxPairs : AttributeQuery

/-- The attributes of the kernels of the selector. -/
structure TopKModule where
  fill : AttributeQuery
  mask : AttributeQuery
  argmaxFirst : AttributeQuery
  argmaxPair : AttributeQuery

/-- The check of a width against the limit of a kernel; `name` is what the message begins with. -/
def checkThreads (name : String) (blockSize : UInt32) (attributes : KernelAttributes) :
    Except NnisError Unit :=
  if attributes.maxThreadsPerBlock < blockSize then
    .error (.invalidInput (s!"{name} block size {blockSize} exceeds function limit " ++
      s!"{attributes.maxThreadsPerBlock}"))
  else .ok ⟨⟩

/-- The check of a number of bytes against the limit of a kernel; `name` is what the message begins
with. -/
def checkSharedMemory (name : String) (bytes : ℕ) (attributes : KernelAttributes) :
    Except NnisError Unit :=
  if attributes.maxDynamicSharedMemoryBytes.toNat < bytes then
    .error (.invalidInput (s!"{name} requires {bytes} shared-memory bytes; function limit is " ++
      s!"{attributes.maxDynamicSharedMemoryBytes}"))
  else .ok ⟨⟩

namespace F32Reduction

/-- Load the reductions; `compiled` are the attributes of their kernels. -/
def loadWithBlockSize (compiled : Except NnisError ReductionModule) (blockSize : UInt32) :
    Except NnisError F32Reduction :=
  if hpower : blockSize.toNat ≠ 0 ∧ blockSize.toNat.isPowerOfTwo then
    if blockSize.toNat * 4 < u32Limit then do
      let kernels ← compiled
      let attributes ← kernels.sum
      let maxAttributes ← kernels.max
      let argmaxAttributes ← kernels.argmaxFirst
      let pairsAttributes ← kernels.argmaxPairs
      if hlt : blockSize.toNat * 12 < u32Limit then do
        checkThreads "reduction argmax" blockSize argmaxAttributes
        checkSharedMemory "reduction argmax" (blockSize.toNat * 12) argmaxAttributes
        checkThreads "reduction argmax-pairs" blockSize pairsAttributes
        checkSharedMemory "reduction argmax-pairs" (blockSize.toNat * 12) pairsAttributes
        checkThreads "reduction" blockSize attributes
        checkThreads "reduction" blockSize maxAttributes
        checkSharedMemory "reduction" (blockSize.toNat * 4) attributes
        checkSharedMemory "reduction" (blockSize.toNat * 4) maxAttributes
        .ok ⟨blockSize.toNat, hpower.2, hlt⟩
      else .error (.invalidInput "reduction shared memory overflows")
    else .error (.invalidInput "reduction shared-memory size overflows")
  else
    .error (.invalidInput s!"reduction block size {blockSize} is not a non-zero power of two")

/-- The shared memory that an argmax launch requests, in bytes. -/
def argmaxSharedMemoryBytes (reduction : F32Reduction) : Except NnisError ℕ :=
  if reduction.blockSize * 12 < u32Limit then .ok (reduction.blockSize * 12)
  else .error (.invalidInput "argmax shared memory overflows")

theorem argmaxSharedMemoryBytes_eq (reduction : F32Reduction) :
    reduction.argmaxSharedMemoryBytes = .ok (reduction.blockSize * 12) :=
  if_pos reduction.sharedMemory_lt

end F32Reduction

namespace F32TopK

/-- Load the selector; `compiled` are the attributes of its kernels. -/
def loadWithBlockSize (compiled : Except NnisError TopKModule) (blockSize : UInt32) :
    Except NnisError F32TopK :=
  if hpower : blockSize.toNat ≠ 0 ∧ blockSize.toNat.isPowerOfTwo then
    if hlt : blockSize.toNat * 8 < u32Limit then do
      let kernels ← compiled
      checkThreads "top-k" blockSize (← kernels.fill)
      checkThreads "top-k" blockSize (← kernels.mask)
      checkThreads "top-k" blockSize (← kernels.argmaxFirst)
      checkThreads "top-k" blockSize (← kernels.argmaxPair)
      checkSharedMemory "top-k" (blockSize.toNat * 8) (← kernels.argmaxFirst)
      checkSharedMemory "top-k" (blockSize.toNat * 8) (← kernels.argmaxPair)
      .ok ⟨blockSize.toNat, hpower.2, hlt⟩
    else .error (.invalidInput "top-k shared-memory size overflows")
  else .error (.invalidInput s!"top-k block size {blockSize} is not a non-zero power of two")

/-- The shared memory that a launch of a scan requests, in bytes, as the product of 32-bit
numbers. -/
def scanSharedMemoryBytes (topK : F32TopK) : ℕ := topK.blockSize * (4 + 4) % u32Limit

theorem scanSharedMemoryBytes_eq (topK : F32TopK) :
    topK.scanSharedMemoryBytes = topK.blockSize * (4 + 4) :=
  Nat.mod_eq_of_lt topK.sharedMemory_lt

end F32TopK

/-! ### Fused attention -/

namespace F32Attention

variable {attention : F32Attention} {headDim valueDim bytes : ℕ}

theorem fusedSharedMemoryBytes_eq_some_iff :
    attention.fusedSharedMemoryBytes headDim valueDim = some bytes ↔
      bytes = (attention.blockSize * headDim + attention.blockSize * valueDim +
        attention.blockSize * 2 + headDim + valueDim) * 4 ∧ bytes < wordLimit := by
  rw [fusedSharedMemoryBytes]
  simp only [Option.bind_eq_bind, Option.bind_eq_some_iff, checkedMul_eq_some_iff,
    checkedAdd_eq_some_iff]
  constructor
  · rintro ⟨_, ⟨rfl, -⟩, _, ⟨rfl, -⟩, _, ⟨rfl, -⟩, _, ⟨rfl, -⟩, _, ⟨rfl, -⟩, _, ⟨rfl, -⟩, _,
      ⟨rfl, -⟩, rfl, hlt⟩
    exact ⟨rfl, hlt⟩
  · rintro ⟨rfl, hlt⟩
    refine ⟨_, ⟨rfl, ?_⟩, _, ⟨rfl, ?_⟩, _, ⟨rfl, ?_⟩, _, ⟨rfl, ?_⟩, _, ⟨rfl, ?_⟩, _, ⟨rfl, ?_⟩, _,
      ⟨rfl, ?_⟩, rfl, hlt⟩ <;> omega

/-- The layout of the fused kernels. -/
theorem layout_matches {F I O : Type} (a : FusedAttention F I O)
    (hbytes : attention.fusedSharedMemoryBytes a.headDim a.valueDim = some bytes) :
    LayoutMatches (a.region attention.blockSize) bytes attention.blockSize
      (FusedAttention.Regional.thread a attention.blockSize) := by
  obtain ⟨rfl, -⟩ := fusedSharedMemoryBytes_eq_some_iff.1 hbytes
  refine .of_packed [.qSh, .kTile, .vTile, .scores, .scratch, .acc] (fun r => ?_) ?_
    (fun lane hlane => FusedAttention.Regional.touches_thread hlane)
    fun r => ⟨⟨4, rfl⟩, Nat.dvd_mul_right 4 _⟩
  · cases r <;> simp
  · simp only [Packed, FusedAttention.region, SharedRegion.stop, FusedAttention.place,
      FusedAttention.extent, FusedAttention.acc, FusedAttention.scratch, FusedAttention.scores,
      FusedAttention.vTile, FusedAttention.kTile, FusedAttention.qSh]
    omega

/-- The index of a loop over a region does not leave 32 bits. -/
theorem extent_le {F I O : Type} (a : FusedAttention F I O)
    (hbytes : attention.fusedSharedMemoryBytes a.headDim a.valueDim = some bytes)
    (hlt : bytes < u32Limit) (r : AttentionRegion) :
    a.extent attention.blockSize r + attention.blockSize ≤ u32Limit := by
  obtain ⟨rfl, -⟩ := fusedSharedMemoryBytes_eq_some_iff.1 hbytes
  rw [u32Limit] at hlt ⊢
  cases r <;> simp only [FusedAttention.extent] <;> omega

private theorem configure_spec {gridX : ℕ} {launch : AttentionLaunch}
    (h : attention.configure gridX headDim valueDim = .ok (some launch)) :
    launch.blockSize = attention.blockSize ∧ launch.sharedMemoryBytes < u32Limit ∧
      attention.fusedSharedMemoryBytes headDim valueDim = some launch.sharedMemoryBytes := by
  obtain ⟨bytes, hbytes, h⟩ := Except.bind_eq_ok_iff.1 h
  split_ifs at h with hlt
  obtain rfl := Option.some.inj (Except.ok.inj h)
  refine ⟨rfl, hlt, ?_⟩
  cases hsize : attention.fusedSharedMemoryBytes headDim valueDim with
  | none => rw [hsize] at hbytes; exact nomatch hbytes
  | some size => rw [hsize] at hbytes; exact congrArg some (Except.ok.inj hbytes)

/-- What a launch of a fused kernel requests. -/
theorem launch_spec {shape : AttentionShape} {lengths : AttentionLengths} {causal : Bool}
    {launch : AttentionLaunch}
    (h : attention.enqueueAttentionFused shape lengths causal = .ok (some launch) ∨
      ∃ numHeads,
        attention.enqueueAttentionFusedMultihead numHeads shape lengths causal =
        .ok (some launch)) :
    launch.blockSize = attention.blockSize ∧ launch.sharedMemoryBytes < u32Limit ∧
      attention.fusedSharedMemoryBytes shape.headDim shape.valueDim =
        some launch.sharedMemoryBytes := by
  rcases h with h | ⟨numHeads, h⟩
  all_goals
    obtain ⟨-, -, h⟩ := Except.bind_eq_ok_iff.1 h
    obtain ⟨-, -, h⟩ := Except.bind_eq_ok_iff.1 h
    by_cases hrows : shape.queryRows = 0
    · rw [if_pos hrows] at h
      exact nomatch h
    rw [if_neg hrows] at h
  · split_ifs at h
    exact configure_spec h
  · obtain ⟨totalBlocks, -, h⟩ := Except.bind_eq_ok_iff.1 h
    split_ifs at h
    exact configure_spec h

end F32Attention

/-! ### The three families -/

/-- The layouts of loaded kernels match their launches. The requests of attention launches are those
of the layout, and the 32-bit indices of their loops do not wrap. -/
structure SharedLayoutsMatch (attention : F32Attention) (reduction : F32Reduction)
    (topK : F32TopK) :
    Prop where
  fused : ∀ {F I O : Type} (a : FusedAttention F I O) (bytes : ℕ),
    attention.fusedSharedMemoryBytes a.headDim a.valueDim = some bytes →
      LayoutMatches (a.region attention.blockSize) bytes attention.blockSize
          (FusedAttention.Regional.thread a attention.blockSize) ∧
        ∀ lane, (FusedAttention.Regional.thread a attention.blockSize lane).relabel
          (a.flat attention.blockSize) = a.thread attention.blockSize lane
  fusedLaunch : ∀ (shape : AttentionShape) (lengths : AttentionLengths) (causal : Bool)
    (launch : AttentionLaunch),
    (attention.enqueueAttentionFused shape lengths causal = .ok (some launch) ∨
      ∃ numHeads,
        attention.enqueueAttentionFusedMultihead numHeads shape lengths causal =
      .ok (some launch)) → launch.blockSize = attention.blockSize ∧
        attention.fusedSharedMemoryBytes shape.headDim shape.valueDim =
          some launch.sharedMemoryBytes ∧
        ∀ {F I O : Type} (a : FusedAttention F I O), a.headDim = shape.headDim →
          a.valueDim = shape.valueDim →
            ∀ r, a.extent attention.blockSize r + attention.blockSize ≤ u32Limit
  argmaxFirst : ∀ (bytes elements blockIdx : ℕ) (input : ℕ → F32),
    reduction.argmaxSharedMemoryBytes = .ok bytes →
      LayoutMatches (pairRegion 8 reduction.blockSize) bytes reduction.blockSize fun lane =>
        nnisReduceArgmaxFirstF32 elements reduction.blockSize blockIdx lane input
  argmaxPairs : ∀ (bytes elements blockIdx : ℕ) (values : ℕ → F32) (indices : ℕ → UInt64),
    reduction.argmaxSharedMemoryBytes = .ok bytes →
      LayoutMatches (pairRegion 8 reduction.blockSize) bytes reduction.blockSize fun lane =>
        nnisReduceArgmaxPairsF32 elements reduction.blockSize blockIdx lane values indices
  topkFirst : ∀ (elements blockIdx : ℕ) (input : ℕ → F32),
    LayoutMatches (pairRegion 4 topK.blockSize) topK.scanSharedMemoryBytes
    topK.blockSize fun lane =>
      nnisTopkArgmaxFirstF32 elements topK.blockSize blockIdx lane input
  topkPair : ∀ (elements blockIdx : ℕ) (values : ℕ → F32) (indices : ℕ → UInt32),
    LayoutMatches (pairRegion 4 topK.blockSize) topK.scanSharedMemoryBytes
    topK.blockSize fun lane =>
      nnisTopkArgmaxPairF32 elements topK.blockSize blockIdx lane values indices

/-- The indices of the argmax kernels begin at a multiple of their size unless there is one
thread. -/
private theorem eight_dvd_iff (reduction : F32Reduction) :
    8 ∣ 4 * reduction.blockSize ↔ reduction.blockSize ≠ 1 := by
  obtain ⟨k, hk⟩ := reduction.isPowerOfTwo
  cases k with
  | zero =>
    rw [hk]
    decide
  | succ k =>
    have heven : reduction.blockSize = 2 * 2 ^ k := hk.trans (Nat.pow_succ' ..)
    constructor <;> intro _ <;> omega

private theorem argmax_matches_iff (reduction : F32Reduction)
    {thread : ℕ → PairThread UInt64 Unit} {bytes : ℕ}
    (hbytes : reduction.argmaxSharedMemoryBytes = .ok bytes)
    (hinside : ∀ lane < reduction.blockSize,
      (thread lane).Touches (PairThread.Inside 8 reduction.blockSize)) :
    LayoutMatches (pairRegion 8 reduction.blockSize) bytes reduction.blockSize thread ↔
      reduction.blockSize ≠ 1 := by
  obtain rfl := Except.ok.inj (reduction.argmaxSharedMemoryBytes_eq.symm.trans hbytes)
  exact (pairLayout_matches_iff ⟨2, rfl⟩ hinside).trans (eight_dvd_iff reduction)

private theorem topk_matches (topK : F32TopK) {thread : ℕ → PairThread UInt32 Unit}
    (hinside : ∀ lane < topK.blockSize,
      (thread lane).Touches (PairThread.Inside 4 topK.blockSize)) :
    LayoutMatches (pairRegion 4 topK.blockSize) topK.scanSharedMemoryBytes
      topK.blockSize thread := by
  rw [topK.scanSharedMemoryBytes_eq]
  exact (pairLayout_matches_iff ⟨4, rfl⟩ hinside).2 (Nat.dvd_mul_right 4 _)

/-- The shared-memory layouts match their launches, for every width and shape, unless the blocks of
the argmax kernels have one thread. -/
theorem sharedLayoutsMatch_iff (attention : F32Attention) (reduction : F32Reduction)
    (topK : F32TopK) :
    SharedLayoutsMatch attention reduction topK ↔ reduction.blockSize ≠ 1 := by
  constructor
  · intro h
    exact (argmax_matches_iff reduction reduction.argmaxSharedMemoryBytes_eq fun _ hlane =>
      PairThread.touches_argmaxThread hlane).1 (h.argmaxFirst _ 0 0 (fun _ => .zero false)
        reduction.argmaxSharedMemoryBytes_eq)
  · intro hwidth
    exact {
      fused := fun a bytes hbytes => ⟨F32Attention.layout_matches a hbytes,
        FusedAttention.Regional.relabel_thread a attention.blockSize⟩
      fusedLaunch := fun shape lengths causal launch hlaunch => by
        obtain ⟨hblock, hlt, hbytes⟩ := F32Attention.launch_spec hlaunch
        refine ⟨hblock, hbytes, fun a hhead hvalue r => ?_⟩
        rw [← hhead, ← hvalue] at hbytes
        exact F32Attention.extent_le a hbytes hlt r
      argmaxFirst := fun bytes elements blockIdx input hbytes =>
        (argmax_matches_iff reduction hbytes fun _ hlane =>
          PairThread.touches_argmaxThread hlane).2 hwidth
      argmaxPairs := fun bytes elements blockIdx values indices hbytes =>
        (argmax_matches_iff reduction hbytes fun _ hlane =>
          PairThread.touches_argmaxThread hlane).2 hwidth
      topkFirst := fun elements blockIdx input =>
        topk_matches topK fun _ hlane => PairThread.touches_topkThread hlane
      topkPair := fun elements blockIdx values indices =>
        topk_matches topK fun _ hlane => PairThread.touches_topkThread hlane }

/-- A device loads the reductions with blocks of one thread, and there the indices of the argmax
kernels begin at the fourth byte. -/
theorem argmaxLayout_misaligned :
    ∃ reduction : F32Reduction,
      F32Reduction.loadWithBlockSize (.ok ⟨.ok ⟨1024, 49152⟩, .ok ⟨1024, 49152⟩, .ok ⟨1024, 49152⟩,
        .ok ⟨1024, 49152⟩⟩) 1 = .ok reduction ∧
      ¬ LayoutMatches (pairRegion 8 reduction.blockSize) 12 reduction.blockSize fun lane =>
        nnisReduceArgmaxFirstF32 3 reduction.blockSize 0 lane fun _ => .zero false := by
  refine ⟨⟨1, ⟨0, rfl⟩, by decide⟩, rfl, fun h => ?_⟩
  have haligned := h.aligned 0 (Nat.dvd_zero 16) .partialIndex
  exact absurd haligned (by decide)

end NNIS
