import NNIS.Core.PortableSession
import NNIS.Semantics.Replies

/-!
# The host cache as one list of rows for each layer

The host cache of `nnis-core/src/session.rs` keeps the rows of all layers in one buffer and one
length. What its public reads show is a list of rows for each layer: an accepted append adds one
row to every list, a truncation drops rows from the end of every list, and a refused call changes
none of them. A refused append may have written rows behind the length, which no read shows.

## Main definitions

* `PortableKvCacheV1.reads` — everything that the public reads show.
* `PortableKvCallV1`, `PortableKvCacheV1.perform` — the mutating calls.
* `KvRowLists`, `KvRowLists.perform` — a list of rows for each layer.

## Main results

* `PortableKvCacheV1.reads_eq` — the public reads are those of the lists.
* `PortableKvCacheV1.perform_rowLists` — a call on the cache is a call on the lists.
* `PortableKvCacheV1.refines_rowLists` — every sequence of calls from a new cache.
-/

set_option autoImplicit false

namespace NNIS

/-! ### Public reads -/

/-- The product of 64-bit numbers, or the largest one. -/
def saturatingMul (a b : ℕ) : ℕ := min (a * b) (wordLimit - 1)

/-- Exact host storage accounting. -/
structure PortableKvStorageTelemetryV1 where
  mode : PortableKvStorageModeV1
  layers : ℕ
  length : ℕ
  capacity : ℕ
  rowWidth : ℕ
  denseLogicalPayloadBytes : ℕ
  denseCapacityPayloadBytes : ℕ
  fp4Logical : Option Fp4KvStorageV1
  fp4Capacity : Option Fp4KvStorageV1

/-- Everything that the public reads of a cache show. -/
structure PortableKvReads where
  layers : ℕ
  capacity : ℕ
  rowWidth : ℕ
  len : ℕ
  isEmpty : Bool
  storageMode : PortableKvStorageModeV1
  denseTelemetry : PortableKvStorageTelemetryV1
  logicalPayloadBytes : ℕ
  capacityPayloadBytes : ℕ
  row : ℕ → ℕ → Outcome PortableSessionError (List F32)
  layerPrefix : ℕ → Outcome PortableSessionError (List F32)

namespace PortableKvCacheV1

/-- Allocate zero-filled storage in the default mode. -/
def new (layers capacity rowWidth : ℕ) :
    Fallible Allocator (Stop PortableSessionError) PortableKvCacheV1 :=
  withStorageMode layers capacity rowWidth .denseF32

variable (cache : PortableKvCacheV1)

def isEmpty : Bool := cache.length == 0

/-- Exact host payload bytes addressed by the logical length. -/
def logicalPayloadBytes : ℕ :=
  saturatingMul (saturatingMul (saturatingMul cache.layers cache.length) cache.rowWidth) 4

/-- Exact host payload bytes of the full capacity. -/
def capacityPayloadBytes : ℕ :=
  saturatingMul (saturatingMul (saturatingMul cache.layers cache.capacity) cache.rowWidth) 4

/-- Dense telemetry only. -/
def denseTelemetry : PortableKvStorageTelemetryV1 where
  mode := cache.mode
  layers := cache.layers
  length := cache.length
  capacity := cache.capacity
  rowWidth := cache.rowWidth
  denseLogicalPayloadBytes := cache.logicalPayloadBytes
  denseCapacityPayloadBytes := cache.capacityPayloadBytes
  fp4Logical := none
  fp4Capacity := none

/-- Everything that the public reads show. -/
def reads : PortableKvReads where
  layers := cache.layers
  capacity := cache.capacity
  rowWidth := cache.rowWidth
  len := cache.length
  isEmpty := cache.isEmpty
  storageMode := cache.mode
  denseTelemetry := cache.denseTelemetry
  logicalPayloadBytes := cache.logicalPayloadBytes
  capacityPayloadBytes := cache.capacityPayloadBytes
  row := cache.row
  layerPrefix := cache.layerPrefix

end PortableKvCacheV1

/-! ### Calls -/

/-- A mutating call. -/
inductive PortableKvCallV1
  | append (rows : List (List F32))
  | truncate (length : ℕ)
  | reset

/-- Perform a call. -/
def PortableKvCacheV1.perform (call : PortableKvCallV1) (cache : PortableKvCacheV1) :
    Except (Stop PortableSessionError) PUnit × PortableKvCacheV1 :=
  match call with
  | .append rows => (PortableKvCacheV1.append rows).run cache
  | .truncate length => (PortableKvCacheV1.truncate length).run cache
  | .reset => (.ok ⟨⟩, cache.reset)

/-! ### Lists of rows -/

/-- A list of rows for each layer, under a capacity. -/
structure KvRowLists where
  layers : ℕ
  capacity : ℕ
  rowWidth : ℕ
  mode : PortableKvStorageModeV1
  rows : ℕ → List (List F32)

namespace KvRowLists

variable (lists : KvRowLists)

/-- The common length of the lists. -/
def length : ℕ := (lists.rows 0).length

/-- Why a row is refused. -/
def rowRefusal (rowWidth : ℕ) (row : List F32) : Option PortableSessionError :=
  if row.length ≠ rowWidth then some (.invalid "portable KV append row width mismatch")
  else if ∀ value ∈ row, value.isFinite = true then none
  else some (.invalid "portable KV append rejects non-finite values")

/-- Why rows are refused: their number, the capacity, or the first refused row. -/
def appendRefusal (rows : List (List F32)) : Option PortableSessionError :=
  if rows.length ≠ lists.layers then
    some (.invalid "portable KV append requires one row slice per layer")
  else if lists.capacity ≤ lists.length then
    some (.state "portable KV append exceeds capacity")
  else rows.findSome? (rowRefusal lists.rowWidth)

/-- Perform a call: a refused call changes nothing. -/
def perform (call : PortableKvCallV1) (lists : KvRowLists) :
    Except (Stop PortableSessionError) PUnit × KvRowLists :=
  match call with
  | .append rows =>
    match lists.appendRefusal rows with
    | some e => (.error (.error e), lists)
    | none =>
      (.ok ⟨⟩, { lists with rows := fun layer => lists.rows layer ++ rows[layer]?.toList })
  | .truncate length =>
    if lists.length < length then
      (.error (.error (.invalid "portable KV truncate length exceeds current length")), lists)
    else (.ok ⟨⟩, { lists with rows := fun layer => (lists.rows layer).take length })
  | .reset => (.ok ⟨⟩, { lists with rows := fun _ => [] })

/-- A refused call has an error of its own and leaves the lists as they are. -/
theorem perform_error {lists lists' : KvRowLists} {call : PortableKvCallV1}
    {e : Stop PortableSessionError} (h : lists.perform call = (.error e, lists')) :
    e ≠ .panic ∧ lists' = lists := by
  cases call with
  | append rows =>
    rw [perform] at h
    cases hrefusal : lists.appendRefusal rows with
    | none =>
      rw [hrefusal] at h
      exact absurd (Prod.mk.inj h).1 nofun
    | some error =>
      rw [hrefusal] at h
      obtain ⟨he, hlists⟩ := Prod.mk.inj h
      obtain rfl := Except.error.inj he
      exact ⟨nofun, hlists.symm⟩
  | truncate length =>
    rw [perform] at h
    split_ifs at h
    · obtain ⟨he, hlists⟩ := Prod.mk.inj h
      obtain rfl := Except.error.inj he
      exact ⟨nofun, hlists.symm⟩
    · exact absurd (Prod.mk.inj h).1 nofun
  | reset => exact absurd (Prod.mk.inj h).1 nofun

/-- Calls keep the number of layers. -/
theorem layers_perform (call : PortableKvCallV1) :
    (lists.perform call).2.layers = lists.layers := by
  cases call with
  | append rows =>
    rw [perform]
    cases lists.appendRefusal rows <;> rfl
  | truncate length =>
    rw [perform]
    split_ifs <;> rfl
  | reset => rfl

/-- The reads of the lists. -/
def reads : PortableKvReads where
  layers := lists.layers
  capacity := lists.capacity
  rowWidth := lists.rowWidth
  len := lists.length
  isEmpty := lists.length == 0
  storageMode := lists.mode
  denseTelemetry :=
    { mode := lists.mode
      layers := lists.layers
      length := lists.length
      capacity := lists.capacity
      rowWidth := lists.rowWidth
      denseLogicalPayloadBytes := lists.layers * lists.length * lists.rowWidth * 4
      denseCapacityPayloadBytes := lists.layers * lists.capacity * lists.rowWidth * 4
      fp4Logical := none
      fp4Capacity := none }
  logicalPayloadBytes := lists.layers * lists.length * lists.rowWidth * 4
  capacityPayloadBytes := lists.layers * lists.capacity * lists.rowWidth * 4
  row layer index :=
    if layer < lists.layers then
      .okOr (lists.rows layer)[index]? (.invalid "portable KV row index out of range")
    else .raise (.invalid "portable KV layer index out of range")
  layerPrefix layer :=
    if layer < lists.layers then .ok (lists.rows layer).flatten
    else .raise (.invalid "portable KV layer index out of range")

end KvRowLists

/-! ### A cache as lists -/

namespace PortableKvCacheV1

variable (cache : PortableKvCacheV1)

/-- The stored row at an index of a layer. -/
def rowAt (layer index : ℕ) : List F32 :=
  region cache.storage (cache.rowOffset layer index) cache.rowWidth

/-- The lists of committed rows of a cache. -/
def rowLists : KvRowLists where
  layers := cache.layers
  capacity := cache.capacity
  rowWidth := cache.rowWidth
  mode := cache.mode
  rows layer :=
    if layer < cache.layers then (List.range cache.length).map (cache.rowAt layer) else []

theorem rows_rowLists {layer : ℕ} (hlayer : layer < cache.layers) :
    cache.rowLists.rows layer = (List.range cache.length).map (cache.rowAt layer) :=
  if_pos hlayer

@[simp] theorem length_rowLists : cache.rowLists.length = cache.length := by
  rw [KvRowLists.length, rows_rowLists _ cache.layers_mem.1, List.length_map, List.length_range]

/-- Products of admitted dimensions do not saturate. -/
private theorem saturatingMul_dims {n : ℕ} (hn : n ≤ cache.capacity) :
    saturatingMul (saturatingMul (saturatingMul cache.layers n) cache.rowWidth) 4 =
      cache.layers * n * cache.rowWidth * 4 := by
  have hlayers : cache.layers ≤ 1024 := cache.layers_mem.2
  have hcapacity : n ≤ 1024 := hn.trans cache.capacity_mem.2
  have hwidth : cache.rowWidth ≤ 1024 := cache.rowWidth_mem.2
  have h₁ : cache.layers * n ≤ 1024 * 1024 := Nat.mul_le_mul hlayers hcapacity
  have h₂ : cache.layers * n * cache.rowWidth ≤ 1024 * 1024 * 1024 := Nat.mul_le_mul h₁ hwidth
  have hfit : ∀ {a b : ℕ}, a * b ≤ 1024 * 1024 * 1024 * 4 → saturatingMul a b = a * b :=
    fun h => Nat.min_eq_left (h.trans (by decide))
  rw [hfit (h₁.trans (by decide)), hfit (h₂.trans (by decide)), hfit (by omega)]

theorem row_eq (layer index : ℕ) :
    cache.row layer index = cache.rowLists.reads.row layer index := by
  rw [row, KvRowLists.reads]
  dsimp only
  change _ = if layer < cache.layers then _ else _
  by_cases hlayer : layer < cache.layers
  · rw [if_pos hlayer, Outcome.require_of _ hlayer, Except.ok_bind, rows_rowLists _ hlayer]
    by_cases hindex : index < cache.length
    · rw [Outcome.require_of _ hindex, Except.ok_bind, List.getElem?_map,
        List.getElem?_range hindex]
      have hfit : cache.rowOffset layer index + cache.rowWidth ≤ cache.storage.length := by
        refine Nat.le_trans ?_ (cache.rowOffset_le hlayer)
        rw [rowOffset, rowOffset, Nat.add_zero, Nat.add_mul, Nat.add_assoc, ← Nat.succ_mul]
        exact Nat.add_le_add_left (Nat.mul_le_mul_right _ hindex) _
      rw [Outcome.slice, if_pos ⟨Nat.le_add_right _ _, hfit⟩, Nat.add_sub_cancel_left]
      rfl
    · rw [Outcome.require_of_not _ hindex, List.getElem?_eq_none]
      · rfl
      · rw [List.length_map, List.length_range]
        exact Nat.le_of_not_lt hindex
  · rw [if_neg hlayer, Outcome.require_of_not _ hlayer]
    rfl

theorem layerPrefix_eq_flatten (layer : ℕ) :
    cache.layerPrefix layer = cache.rowLists.reads.layerPrefix layer := by
  rw [KvRowLists.reads]
  change _ = if layer < cache.layers then _ else _
  by_cases hlayer : layer < cache.layers
  · rw [if_pos hlayer, layerPrefix_eq _ hlayer, rows_rowLists _ hlayer, ← List.flatMap_def,
      layerRows, ← flatMap_region]
    refine congrArg _ (List.flatMap_congr fun i _ => ?_)
    rw [rowAt, rowOffset, rowOffset, Nat.add_zero, Nat.add_mul]
  · rw [if_neg hlayer, layerPrefix, Outcome.require_of_not _ hlayer]
    rfl

/-- The public reads of a cache are those of its lists. -/
theorem reads_eq : cache.reads = cache.rowLists.reads := by
  have hrow : cache.row = cache.rowLists.reads.row := funext₂ cache.row_eq
  have hprefix : cache.layerPrefix = cache.rowLists.reads.layerPrefix :=
    funext cache.layerPrefix_eq_flatten
  have hlogical : cache.logicalPayloadBytes = cache.layers * cache.length * cache.rowWidth * 4 :=
    cache.saturatingMul_dims cache.length_le
  have hcapacity : cache.capacityPayloadBytes =
      cache.layers * cache.capacity * cache.rowWidth * 4 :=
    cache.saturatingMul_dims (Nat.le_refl _)
  rw [reads, hrow, hprefix, denseTelemetry, hlogical, hcapacity, isEmpty, KvRowLists.reads,
    length_rowLists]
  rfl

/-! ### Calls on a cache as calls on its lists -/

theorem rowAt_writeRow {layer layer' index : ℕ} {values : List F32}
    (hfinite : ∀ value ∈ values, value.isFinite = true) (hlayer : layer < cache.layers)
    (hroom : cache.length < cache.capacity) (hwidth : values.length = cache.rowWidth)
    (hindex : index < cache.capacity) :
    (cache.writeRow layer values hfinite).rowAt layer' index =
      if layer' = layer ∧ index = cache.length then values else cache.rowAt layer' index := by
  have hslot : layer * cache.capacity + cache.length < cache.layers * cache.capacity :=
    calc layer * cache.capacity + cache.length
        < layer * cache.capacity + cache.capacity := Nat.add_lt_add_left hroom _
      _ = (layer + 1) * cache.capacity := (Nat.succ_mul ..).symm
      _ ≤ cache.layers * cache.capacity := Nat.mul_le_mul_right _ hlayer
  have hsame : layer' * cache.capacity + index = layer * cache.capacity + cache.length ↔
      layer' = layer ∧ index = cache.length := by
    constructor
    · intro h
      have hdiv := congrArg (· / cache.capacity) h
      have hmod := congrArg (· % cache.capacity) h
      simp only [Nat.mul_comm _ cache.capacity, Nat.mul_add_mod, Nat.mod_eq_of_lt hindex,
        Nat.mod_eq_of_lt hroom, Nat.mul_add_div cache.capacity_mem.1, Nat.div_eq_of_lt hindex,
        Nat.div_eq_of_lt hroom, Nat.add_zero] at hdiv hmod
      exact ⟨hdiv, hmod⟩
    · rintro ⟨rfl, rfl⟩
      rfl
  have hwrite := @region_writeRegion_block _ cache.storage values cache.rowWidth
    (cache.layers * cache.capacity) (layer' * cache.capacity + index)
    (layer * cache.capacity + cache.length) hwidth cache.length_storage hslot
  rw [if_congr hsame rfl rfl] at hwrite
  exact hwrite

/-- What a partial append may have changed: rows from one layer on, behind the length. -/
structure KeepsBelow (k : ℕ) (cache cache' : PortableKvCacheV1) : Prop where
  layers : cache'.layers = cache.layers
  capacity : cache'.capacity = cache.capacity
  rowWidth : cache'.rowWidth = cache.rowWidth
  mode : cache'.mode = cache.mode
  length : cache'.length = cache.length
  rowAt : ∀ layer index, index < cache.capacity → layer < k ∨ index ≠ cache.length →
    cache'.rowAt layer index = cache.rowAt layer index

theorem KeepsBelow.rowLists_eq {k : ℕ} {cache cache' : PortableKvCacheV1}
    (h : KeepsBelow k cache cache') : cache'.rowLists = cache.rowLists := by
  have hrows : cache'.rowLists.rows = cache.rowLists.rows := by
    funext layer
    change (if _ then _ else _) = if _ then _ else _
    rw [h.layers, h.length]
    split_ifs
    · refine List.map_congr_left fun index hindex => ?_
      have hlt := List.mem_range.1 hindex
      exact h.rowAt layer index (Nat.lt_of_lt_of_le hlt cache.length_le) (.inr (Nat.ne_of_lt hlt))
    · rfl
  rw [rowLists, rowLists, KvRowLists.mk.injEq]
  exact ⟨h.layers, h.capacity, h.rowWidth, h.mode, hrows⟩

private theorem KeepsBelow.refl (k : ℕ) (cache : PortableKvCacheV1) : KeepsBelow k cache cache :=
  ⟨rfl, rfl, rfl, rfl, rfl, fun _ _ _ _ => rfl⟩

/-- A refused row is not written. -/
private theorem run_appendRow_of_refused {row : List F32} {e : PortableSessionError}
    (h : KvRowLists.rowRefusal cache.rowWidth row = some e) (layer : ℕ) :
    (appendRow (row, layer)).run cache = (.error (.error e), cache) := by
  rw [KvRowLists.rowRefusal] at h
  rw [appendRow, Fallible.run_bind_ok (Fallible.run_get cache)]
  by_cases hwidth : row.length = cache.rowWidth
  · rw [if_neg (not_not.2 hwidth)] at h
    rw [Outcome.require_of _ hwidth, Fallible.ofExcept_ok_bind]
    by_cases hfinite : ∀ value ∈ row, value.isFinite = true
    · rw [if_pos hfinite] at h
      exact absurd h nofun
    · rw [if_neg hfinite] at h
      obtain rfl := Option.some.inj h
      rw [dif_neg hfinite]
      rfl
  · rw [if_pos hwidth] at h
    obtain rfl := Option.some.inj h
    rw [Outcome.require_of_not _ hwidth]
    rfl

/-- A row that is not refused is written. -/
private theorem run_appendRow_of_accepted {row : List F32}
    (h : KvRowLists.rowRefusal cache.rowWidth row = none) (layer : ℕ) :
    ∃ hfinite, row.length = cache.rowWidth ∧
      (appendRow (row, layer)).run cache = (.ok ⟨⟩, cache.writeRow layer row hfinite) := by
  rw [KvRowLists.rowRefusal] at h
  by_cases hwidth : row.length = cache.rowWidth
  · rw [if_neg (not_not.2 hwidth)] at h
    by_cases hfinite : ∀ value ∈ row, value.isFinite = true
    · refine ⟨hfinite, hwidth, ?_⟩
      rw [appendRow, Fallible.run_bind_ok (Fallible.run_get cache), Outcome.require_of _ hwidth,
        Fallible.ofExcept_ok_bind, dif_pos hfinite]
      rfl
    · rw [if_neg hfinite] at h
      exact absurd h nofun
  · rw [if_pos hwidth] at h
    exact absurd h nofun

/-- The loop over the layers stops at the first refused row; until then it writes the rows behind
the length. -/
private theorem run_appendRows (rows : List (List F32)) (k : ℕ) (cache : PortableKvCacheV1)
    (hlayers : k + rows.length ≤ cache.layers) (hroom : cache.length < cache.capacity) :
    ∃ cache', KeepsBelow k cache cache' ∧
      match rows.findSome? (KvRowLists.rowRefusal cache.rowWidth) with
      | some e => (Fallible.forEach (rows.zipIdx k) appendRow).run cache =
          (.error (.error e), cache')
      | none => (Fallible.forEach (rows.zipIdx k) appendRow).run cache = (.ok ⟨⟩, cache') ∧
          ∀ j row, rows[j]? = some row → cache'.rowAt (k + j) cache.length = row := by
  induction rows generalizing k cache with
  | nil => exact ⟨cache, .refl k cache, rfl, nofun⟩
  | cons row rows ih =>
    rw [List.length_cons] at hlayers
    rw [List.findSome?_cons, List.zipIdx_cons, Fallible.forEach, Fallible.foldEach]
    cases hrefusal : KvRowLists.rowRefusal cache.rowWidth row with
    | some e =>
      exact ⟨cache, .refl k cache,
        Fallible.run_bind_error (cache.run_appendRow_of_refused hrefusal k) _⟩
    | none =>
      obtain ⟨hfinite, hwidth, hrun⟩ := cache.run_appendRow_of_accepted hrefusal k
      have hwritten : ∀ layer index, index < cache.capacity →
          (cache.writeRow k row hfinite).rowAt layer index =
            if layer = k ∧ index = cache.length then row else cache.rowAt layer index :=
        fun layer index hindex =>
          cache.rowAt_writeRow hfinite (by omega) hroom hwidth hindex
      obtain ⟨cache', hkeeps, hrest⟩ := ih (k + 1) (cache.writeRow k row hfinite)
        (Nat.le_trans (by omega) hlayers) hroom
      refine ⟨cache', ⟨hkeeps.layers, hkeeps.capacity, hkeeps.rowWidth, hkeeps.mode,
        hkeeps.length, fun layer index hindex hslot => ?_⟩, ?_⟩
      · rw [hkeeps.rowAt layer index hindex (hslot.imp_left Nat.lt_succ_of_lt),
          hwritten layer index hindex, if_neg]
        rintro ⟨rfl, rfl⟩
        exact hslot.elim (Nat.lt_irrefl _) fun hne => hne rfl
      · rw [Fallible.run_bind_ok hrun]
        change match rows.findSome? (KvRowLists.rowRefusal cache.rowWidth) with
          | some e => _ = _
          | none => _ = _ ∧ _ at hrest
        dsimp only
        cases hlater : rows.findSome? (KvRowLists.rowRefusal cache.rowWidth) with
        | some e =>
          rw [hlater] at hrest
          exact hrest
        | none =>
          rw [hlater] at hrest
          refine ⟨hrest.1, fun j other hget => ?_⟩
          cases j with
          | zero =>
            obtain rfl := Option.some.inj hget
            rw [Nat.add_zero, hkeeps.rowAt k cache.length hroom (.inl (Nat.lt_succ_self k)),
              hwritten k cache.length hroom, if_pos ⟨rfl, rfl⟩]
          | succ j =>
            have hrow := hrest.2 j other hget
            rwa [Nat.add_right_comm, Nat.add_assoc] at hrow

/-- A cache with another length shows the rows below it. -/
private theorem rowLists_eq_of_rows {cache cache' : PortableKvCacheV1}
    {rows : ℕ → List (List F32)} (hlayers : cache'.layers = cache.layers)
    (hcapacity : cache'.capacity = cache.capacity) (hwidth : cache'.rowWidth = cache.rowWidth)
    (hmode : cache'.mode = cache.mode)
    (hrows : ∀ layer < cache.layers,
      (List.range cache'.length).map (cache'.rowAt layer) = rows layer)
    (hnone : ∀ layer, cache.layers ≤ layer → rows layer = []) :
    { cache.rowLists with rows := rows } = cache'.rowLists := by
  rw [rowLists, rowLists, KvRowLists.mk.injEq]
  refine ⟨hlayers.symm, hcapacity.symm, hwidth.symm, hmode.symm, funext fun layer => ?_⟩
  rw [hlayers]
  split_ifs with hlayer
  · exact (hrows layer hlayer).symm
  · exact hnone layer (Nat.le_of_not_lt hlayer)

private theorem perform_append (rows : List (List F32)) :
    cache.rowLists.perform (.append rows) =
      ((cache.perform (.append rows)).1, (cache.perform (.append rows)).2.rowLists) := by
  rw [KvRowLists.perform, KvRowLists.appendRefusal, length_rowLists, perform, append]
  change (match if rows.length ≠ cache.layers then _ else if cache.capacity ≤ cache.length then _
    else rows.findSome? (KvRowLists.rowRefusal cache.rowWidth) with | some e => _ | none => _) = _
  rw [Fallible.run_bind_ok (Fallible.run_get cache)]
  by_cases hcount : rows.length = cache.layers
  · rw [if_neg (not_not.2 hcount), Outcome.require_of _ hcount, Fallible.ofExcept_ok_bind]
    by_cases hroom : cache.length < cache.capacity
    · rw [if_neg (Nat.not_le.2 hroom), Outcome.require_of _ hroom, Fallible.ofExcept_ok_bind]
      obtain ⟨cache', hkeeps, hloop⟩ := run_appendRows rows 0 cache (by omega) hroom
      cases hrefusal : rows.findSome? (KvRowLists.rowRefusal cache.rowWidth) with
      | some e =>
        rw [hrefusal] at hloop
        rw [Fallible.run_bind_error hloop]
        dsimp only
        rw [hkeeps.rowLists_eq]
      | none =>
        rw [hrefusal] at hloop
        have hgrow : cache'.grow.length = cache.length + 1 := by
          rw [grow, dif_pos (by rw [hkeeps.length, hkeeps.capacity]; exact hroom)]
          exact congrArg (· + 1) hkeeps.length
        have hgrown : cache'.grow.layers = cache.layers ∧
            cache'.grow.capacity = cache.capacity ∧ cache'.grow.rowWidth = cache.rowWidth ∧
            cache'.grow.mode = cache.mode ∧ ∀ layer, cache'.grow.rowAt layer =
              cache'.rowAt layer := by
          rw [grow]
          split_ifs
          · exact ⟨hkeeps.layers, hkeeps.capacity, hkeeps.rowWidth, hkeeps.mode, fun _ => rfl⟩
          · exact ⟨hkeeps.layers, hkeeps.capacity, hkeeps.rowWidth, hkeeps.mode, fun _ => rfl⟩
        obtain ⟨hlayers, hcapacity, hwidth, hmode, hrowAt⟩ := hgrown
        rw [Fallible.run_bind_ok hloop.1, Fallible.run_modify]
        dsimp only
        refine congrArg (Prod.mk _) (rowLists_eq_of_rows hlayers hcapacity hwidth hmode
          (fun layer hlayer => ?_) fun layer hlayer => ?_)
        · have hrow := hloop.2 layer (rows.get ⟨layer, hcount ▸ hlayer⟩)
            (List.getElem?_eq_getElem (hcount ▸ hlayer))
          rw [Nat.zero_add] at hrow
          rw [hgrow, hrowAt, List.range_succ, List.map_append, List.map_singleton, hrow,
            rows_rowLists _ hlayer, List.getElem?_eq_getElem (hcount ▸ hlayer), Option.toList_some]
          refine congrArg (· ++ _) (List.map_congr_left fun index hindex => ?_)
          have hlt := List.mem_range.1 hindex
          exact hkeeps.rowAt layer index (hlt.trans hroom) (.inr (Nat.ne_of_lt hlt))
        · rw [List.getElem?_eq_none (by omega)]
          change (if _ then _ else _) ++ _ = _
          rw [if_neg (Nat.not_lt.2 hlayer)]
          rfl
    · rw [if_pos (Nat.le_of_not_lt hroom), Outcome.require_of_not _ hroom]
      rfl
  · rw [if_pos hcount, Outcome.require_of_not _ hcount]
    rfl

private theorem perform_shorten {length : ℕ} (h : length ≤ cache.length) :
    { cache.rowLists with rows := fun layer => (cache.rowLists.rows layer).take length } =
      (cache.shorten length h).rowLists := by
  refine rowLists_eq_of_rows rfl rfl rfl rfl (fun layer hlayer => ?_) fun layer hlayer => ?_
  · rw [rows_rowLists _ hlayer, ← List.map_take, List.take_range, Nat.min_eq_left h]
    rfl
  · change List.take _ (if _ then _ else _) = _
    rw [if_neg (Nat.not_lt.2 hlayer), List.take_nil]

/-- A call on the cache is a call on its lists. -/
theorem perform_rowLists (call : PortableKvCallV1) :
    cache.rowLists.perform call = ((cache.perform call).1, (cache.perform call).2.rowLists) := by
  cases call with
  | append rows => exact cache.perform_append rows
  | truncate length =>
    rw [KvRowLists.perform, length_rowLists, perform, truncate,
      Fallible.run_bind_ok (Fallible.run_get cache)]
    by_cases h : length ≤ cache.length
    · rw [if_neg (Nat.not_lt.2 h), dif_pos h, perform_shorten cache h]
      rfl
    · rw [if_pos (Nat.lt_of_not_le h), dif_neg h]
      rfl
  | reset =>
    rw [KvRowLists.perform, perform, reset, ← perform_shorten]
    simp only [List.take_zero]

/-! ### Every sequence of calls -/

/-- A refused call has an error of its own and changes nothing that the public reads show. -/
theorem perform_error {cache cache' : PortableKvCacheV1} {call : PortableKvCallV1}
    {e : Stop PortableSessionError} (h : cache.perform call = (.error e, cache')) :
    e ≠ .panic ∧ cache'.reads = cache.reads := by
  have hlists := cache.perform_rowLists call
  rw [h] at hlists
  obtain ⟨hpanic, hsame⟩ := KvRowLists.perform_error hlists
  exact ⟨hpanic, by rw [reads_eq, reads_eq, hsame]⟩

private theorem validateForRowWidth_meets (mode : PortableKvStorageModeV1) (rowWidth : ℕ) :
    Except.Meets (mode.validateForRowWidth rowWidth) (fun mode' => mode' = mode)
      fun _ => True := by
  cases mode with
  | denseF32 => exact rfl
  | fp4E2M1 groupSize scaleEncoding =>
    have hany : ∀ {α : Type} (x : Outcome PortableSessionError α),
        Except.Meets x (fun _ => True) fun _ => True := fun x => by
      cases x <;> trivial
    exact Except.Meets.bind (hany _) fun _ _ => Except.Meets.bind (hany _) fun _ _ => rfl

/-- A new cache has the requested dimensions and no rows. -/
theorem withStorageMode_spec (layers capacity rowWidth : ℕ) (mode : PortableKvStorageModeV1) :
    Fallible.Spec (fun _ => True) (withStorageMode layers capacity rowWidth mode)
      (fun cache _ => cache.rowLists = ⟨layers, capacity, rowWidth, mode, fun _ => []⟩)
      fun _ _ => True := by
  intro host _
  rw [withStorageMode]
  split_ifs with h₀ h₁
  · trivial
  · trivial
  · cases hmode : mode.validateForRowWidth rowWidth with
    | error e => trivial
    | ok mode' =>
      obtain rfl := (validateForRowWidth_meets mode rowWidth).of_ok hmode
      rw [Fallible.ofExcept_ok_bind]
      have hreserved : (tryReserveExact (layers * capacity * rowWidth) :
          Fallible Allocator (Stop PortableSessionError) _).run host =
            (.ok (host.answer 0 (layers * capacity * rowWidth)), host.rest) := rfl
      rw [Fallible.run_bind_ok hreserved]
      cases host.answer 0 (layers * capacity * rowWidth) with
      | error text => trivial
      | ok size =>
        change rowLists _ = _
        rw [rowLists, KvRowLists.mk.injEq]
        refine ⟨rfl, rfl, rfl, rfl, funext fun layer => ?_⟩
        split_ifs <;> rfl

/-- Every sequence of calls from a new cache is answered as on the lists of rows, and the public
reads afterwards show the lists, which have one length. A refused call has an error of its own and
changes nothing that the public reads show. -/
theorem refines_rowLists (layers capacity rowWidth : ℕ) (mode : PortableKvStorageModeV1) :
    Fallible.Spec (fun _ => True) (withStorageMode layers capacity rowWidth mode)
      (fun cache _ => ∀ calls : List PortableKvCallV1,
        let run := replies perform calls cache
        let lists := replies KvRowLists.perform calls
          ⟨layers, capacity, rowWidth, mode, fun _ => []⟩
        run.1 = lists.1 ∧ run.2.reads = lists.2.reads ∧
          (∀ layer < layers, (lists.2.rows layer).length = run.2.length) ∧
          ∀ call e cache', run.2.perform call = (.error e, cache') →
            e ≠ .panic ∧ cache'.reads = run.2.reads)
      fun _ _ => True := by
  refine (withStorageMode_spec layers capacity rowWidth mode).conseq (fun _ h => h)
    (fun cache _ hcache calls => ?_) fun _ _ h => h
  have hsim := replies_eq_of_simulation (fun call c => perform_rowLists c call) calls cache
  have hlayers : (replies perform calls cache).2.layers = layers := by
    have hkept := replies_invariant (I := fun lists => lists.layers = layers)
      (fun call (lists : KvRowLists) h => (lists.layers_perform call).trans h) calls
      (congrArg KvRowLists.layers hcache)
    rwa [hsim] at hkept
  dsimp only
  rw [← hcache, hsim]
  refine ⟨rfl, reads_eq _, fun layer hlayer => ?_, fun call e cache' h => perform_error h⟩
  rw [rows_rowLists _ (hlayers ▸ hlayer), List.length_map, List.length_range]

end PortableKvCacheV1

end NNIS
