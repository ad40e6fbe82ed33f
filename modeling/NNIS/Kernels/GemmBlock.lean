import Mathlib.Data.Nat.ModEq
import NNIS.Kernels.Gemm
import NNIS.Parallel.Schedule

/-!
# A block of a tiled product

In every round the threads of a block stage the tiles, each thread its own position, and after the
barrier read what the others have staged. The writes of a phase are separate, so under every
schedule a block ends, and each of its threads leaves its fold over the inner dimension in the
output.

## Main definitions

* `TiledProduct.rest` — a thread at the beginning of a round.
* `TiledProduct.Fits` — operands and an output that hold the elements of a block.

## Main results

* `TiledProduct.touches_thread`, `TiledProduct.writes_thread` — the accesses of a thread.
* `TiledProduct.run_rest` — what a block leaves.
-/

set_option autoImplicit false

namespace NNIS

namespace TiledProduct

open Block

variable {α β : Type} (math : GemmMath α) (p : TiledProduct) (tileSide : ℕ) (blockIdx : Dim3)
  (tid : ℕ)

/-! ### Accesses -/

/-- An access inside of the operands, of the output and of the tiles. -/
def InRange (lengthA lengthB lengthOutput tile : ℕ) : Access GemmCell → Prop
  | .read (.matrixA i) => i < lengthA
  | .read (.matrixB i) => i < lengthB
  | .write (.output i) => i < lengthOutput
  | .read (.tileA i) => i < tile
  | .read (.tileB i) => i < tile
  | .write (.tileA i) => i < tile
  | .write (.tileB i) => i < tile
  | _ => False

/-- Operands and an output that hold the elements of a block. -/
structure Fits (lengthA lengthB lengthOutput : ℕ) : Prop where
  matrixA : ∀ i < p.m, ∀ e < p.k, p.baseA + (i * p.k + e) < lengthA
  matrixB : ∀ e < p.k, ∀ j < p.n, p.baseB + p.indexB e j < lengthB
  output : ∀ i < p.m, ∀ j < p.n, p.baseOutput + (i * p.n + j) < lengthOutput

variable {p tileSide tid}

theorem tile_index_lt {i j : ℕ} (hi : i < tileSide) (hj : j < tileSide) :
    i * tileSide + j < tileSide * tileSide :=
  calc i * tileSide + j < i * tileSide + tileSide := Nat.add_lt_add_left hj _
    _ = (i + 1) * tileSide := (Nat.succ_mul _ _).symm
    _ ≤ tileSide * tileSide := Nat.mul_le_mul_right _ hi

theorem thread_lt (htid : tid < tileSide * tileSide) :
    tid / tileSide < tileSide ∧ tid % tileSide < tileSide :=
  ⟨Nat.div_lt_of_lt_mul htid, Nat.mod_lt _ (Nat.pos_of_mul_pos_right (Nat.zero_lt_of_lt htid))⟩

private theorem touches_stage {ok : Access GemmCell → Prop} {inside : Prop} [Decidable inside]
    {source destination : GemmCell} (hsource : inside → ok (.read source))
    (hdestination : ok (.write destination)) :
    (stage math inside source destination : ThreadM α Unit).Touches ok := by
  rw [stage]
  split_ifs with h
  · exact ⟨hsource h, fun _ => ⟨hdestination, trivial⟩⟩
  · exact ⟨hdestination, trivial⟩

/-- A thread accesses nothing outside. -/
theorem touches_thread {lengthA lengthB lengthOutput : ℕ} (h : p.Fits lengthA lengthB lengthOutput)
    (htid : tid < tileSide * tileSide) :
    (p.thread math tileSide blockIdx tid).Touches
      (InRange lengthA lengthB lengthOutput (tileSide * tileSide)) := by
  obtain ⟨hy, hx⟩ := thread_lt htid
  refine Thread.Touches.bind (Thread.Touches.fold fun value tileStart _ => ?_) fun value => ?_
  · refine Thread.Touches.bind (Thread.Touches.bind ?_ fun _ => ?_) fun _ => ?_
    · exact touches_stage math (fun hin => h.matrixA _ hin.1 _ hin.2) (tile_index_lt hy hx)
    · exact touches_stage math (fun hin => h.matrixB _ hin.1 _ hin.2) (tile_index_lt hy hx)
    · refine .barrier_bind (Thread.Touches.bind (Thread.Touches.fold fun value depth hdepth => ?_)
        fun _ => ?_)
      · have hdepth := List.mem_range.1 hdepth
        exact ⟨tile_index_lt hy hdepth, fun _ => ⟨tile_index_lt hdepth hx, fun _ => trivial⟩⟩
      · exact trivial
  · rw [storeElement]
    split_ifs with hin
    · exact ⟨h.output _ hin.1 _ hin.2, trivial⟩
    · exact trivial

/-- A thread writes its element of the output once, and no other one. -/
theorem writes_thread (o : ℕ) :
    (p.thread math tileSide blockIdx tid).Writes (.output o)
      (if (row tileSide blockIdx tid < p.m ∧ col tileSide blockIdx tid < p.n) ∧
        p.baseOutput + (row tileSide blockIdx tid * p.n + col tileSide blockIdx tid) = o
        then 1 else 0) := by
  rw [← Nat.zero_add (ite _ _ _)]
  refine Thread.Writes.bind (Thread.Writes.fold fun value tileStart _ => ?_) fun value => ?_
  · refine Thread.Touches.writes (Thread.Touches.bind (Thread.Touches.bind ?_ fun _ => ?_)
      fun _ => ?_)
    · exact touches_stage math (fun _ => nofun) nofun
    · exact touches_stage math (fun _ => nofun) nofun
    · refine .barrier_bind (Thread.Touches.bind (Thread.Touches.fold fun value depth _ => ?_)
        fun _ => trivial)
      exact ⟨nofun, fun _ => ⟨nofun, fun _ => trivial⟩⟩
  · rw [storeElement]
    by_cases hin : row tileSide blockIdx tid < p.m ∧ col tileSide blockIdx tid < p.n
    · simp only [hin, true_and, if_true]
      have hwrites := @Thread.writes_store GemmCell (GemmCell.Value α) _ (.output o)
        (.output (p.baseOutput + (row tileSide blockIdx tid * p.n + col tileSide blockIdx tid)))
        value
      simp only [GemmCell.output.injEq] at hwrites
      exact hwrites
    · simp only [hin, false_and, if_false]
      exact rfl

/-! ### Phases -/

variable (p tileSide)

/-- A thread at the beginning of a round: the rounds that are left, and the store. -/
def rest (rounds : List ℕ) (tid : ℕ) (value : α) : ThreadM α Unit := do
  let value ← Thread.fold rounds value (p.tileRound math tileSide blockIdx tid)
  p.storeElement tileSide blockIdx tid value

/-- The cells of a phase that begins a round or ends the loop. -/
def stageFootprint (tid : ℕ) : Footprint GemmCell where
  reads := {c | ∃ i, c = .matrixA i ∨ c = .matrixB i}
  writes := {c | c = .tileA tid ∨ c = .tileB tid ∨
    (row tileSide blockIdx tid < p.m ∧ col tileSide blockIdx tid < p.n) ∧
      c = .output (p.baseOutput + (row tileSide blockIdx tid * p.n + col tileSide blockIdx tid))}

/-- The cells of the other phases. -/
def multiplyFootprint : Footprint GemmCell where
  reads := GemmCell.tiles
  writes := ∅

variable {p tileSide} {math} {blockIdx}

private theorem tile_index (tileSide tid : ℕ) :
    tid / tileSide * tileSide + tid % tileSide = tid := Nat.div_add_mod' tid tileSide

private theorem within_stage {f : Footprint GemmCell} {inside : Prop} [Decidable inside]
    {source destination : GemmCell} (hsource : source ∈ f.reads)
    (hdestination : destination ∈ f.writes) :
    (stage math inside source destination : ThreadM α Unit).Within f := by
  rw [stage]
  split_ifs
  · exact ⟨hsource, fun _ => ⟨hdestination, trivial⟩⟩
  · exact ⟨hdestination, trivial⟩

private theorem within_stageTiles (tileStart : ℕ) :
    (p.stageTiles math tileSide blockIdx tid tileStart).Within
      (p.stageFootprint tileSide blockIdx tid) := by
  refine Thread.Within.bind (within_stage ⟨_, .inl rfl⟩ ?_) fun _ =>
    within_stage ⟨_, .inr rfl⟩ ?_
  · exact .inl (by rw [tile_index])
  · exact .inr (.inl (by rw [tile_index]))

private theorem within_multiplyTiles (value : α) :
    (multiplyTiles math tileSide tid value).Within multiplyFootprint :=
  Thread.Within.fold fun _ _ _ => ⟨⟨_, .inl rfl⟩, fun _ => ⟨⟨_, .inr rfl⟩, fun _ => trivial⟩⟩

private theorem within_storeElement (value : α) :
    (p.storeElement tileSide blockIdx tid value).Within
      (p.stageFootprint tileSide blockIdx tid) := by
  rw [storeElement]
  split_ifs with hin
  · exact ⟨.inr (.inr ⟨hin, rfl⟩), trivial⟩
  · exact trivial

/-- The footprints of the rounds that are left. -/
private def plan (p : TiledProduct) (tileSide : ℕ) (blockIdx : Dim3) (rounds : List ℕ) (tid : ℕ) :
    List (Footprint GemmCell) :=
  rounds.flatMap (fun _ => [multiplyFootprint] ++ [p.stageFootprint tileSide blockIdx tid]) ++ []

private theorem follows_rest (rounds : List ℕ) (value : α) :
    (p.rest math tileSide blockIdx rounds tid value).Follows
      (p.stageFootprint tileSide blockIdx tid :: plan p tileSide blockIdx rounds tid)
      Thread.Done := by
  refine Thread.Follows.bind (Thread.follows_fold (fun value tileStart _ fps => ?_) fun value => ?_)
  · refine (within_stageTiles tileStart).bind_follows fun _ => Thread.follows_barrier_bind ?_
    refine (within_multiplyTiles value).bind_follows fun _ => Thread.follows_barrier_bind ?_
    exact rfl
  · exact (within_storeElement value).follows fun _ => rfl

/-- Two threads of a block do not compute the same element. -/
theorem element_injective {t u : ℕ}
    (hrow : row tileSide blockIdx t = row tileSide blockIdx u)
    (hcol : col tileSide blockIdx t = col tileSide blockIdx u) : t = u := by
  rw [row, row, Nat.add_left_cancel_iff] at hrow
  rw [col, col, Nat.add_left_cancel_iff] at hcol
  rw [← tile_index tileSide t, ← tile_index tileSide u, hrow, hcol]

private theorem notMem_reads {c : GemmCell} (h : ∀ i, c ≠ .matrixA i ∧ c ≠ .matrixB i) (u : ℕ) :
    c ∉ (p.stageFootprint tileSide blockIdx u).reads :=
  fun ⟨i, hi⟩ => hi.elim (h i).1 (h i).2

private theorem separate_stage :
    Separate (tileSide * tileSide) (p.stageFootprint tileSide blockIdx) := by
  intro t _ u _ hne c hc
  rcases hc with rfl | rfl | ⟨hin, rfl⟩
  · refine ⟨notMem_reads (by simp) u, fun hu => ?_⟩
    rcases hu with hu | hu | ⟨-, hu⟩ <;> cases hu
    exact hne rfl
  · refine ⟨notMem_reads (by simp) u, fun hu => ?_⟩
    rcases hu with hu | hu | ⟨-, hu⟩ <;> cases hu
    exact hne rfl
  · refine ⟨notMem_reads (by simp) u, fun hu => ?_⟩
    rcases hu with hu | hu | ⟨hin', hu⟩
    · cases hu
    · cases hu
    · have heq := Nat.add_left_cancel (GemmCell.output.inj hu)
      obtain ⟨hrow, hcol⟩ := rowMajor_injective hin.2 hin'.2 heq
      exact hne (element_injective hrow hcol)

private theorem separate_multiply :
    Separate (tileSide * tileSide) fun _ => multiplyFootprint :=
  fun _ _ _ _ _ _ hc => absurd hc (Set.notMem_empty _)

/-! ### What a part of a phase does -/

private theorem advance_stage_bind {inside : Prop}
    [Decidable inside] {source destination : GemmCell}
    (k : Unit → ThreadM α β) (m : GemmCell → α) :
    (stage math inside source destination >>= k).advance m =
      (k ()).advance (Function.update m destination (if inside then m source else math.zero)) := by
  rw [stage]
  split_ifs <;> rfl

private theorem advance_multiply_bind (value : α) (k : α → ThreadM α β) (m : GemmCell → α) :
    (multiplyTiles math tileSide tid value >>= k).advance m =
      (k ((List.range tileSide).foldl (fun value depth =>
        math.fmaf (m (.tileA (tid / tileSide * tileSide + depth)))
          (m (.tileB (depth * tileSide + tid % tileSide))) value) value)).advance m := by
  rw [multiplyTiles]
  generalize List.range tileSide = depths
  induction depths generalizing value with
  | nil => rfl
  | cons depth depths ih => exact ih _

private theorem rest_cons (tileStart : ℕ) (rounds : List ℕ) (value : α) :
    p.rest math tileSide blockIdx (tileStart :: rounds) tid value =
      (p.stageTiles math tileSide blockIdx tid tileStart >>= fun _ => Thread.barrier >>= fun _ =>
        multiplyTiles math tileSide tid value >>= fun value => Thread.barrier >>= fun _ =>
          p.rest math tileSide blockIdx rounds tid value) := by
  rw [rest, Thread.fold, tileRound]
  simp only [Thread.bind_assoc]
  rfl

/-- The element of the first operand at a row and a depth, padded with zeros. -/
def paddedA (math : GemmMath α) (p : TiledProduct) (memory : GemmCell → α) (i e : ℕ) : α :=
  if i < p.m ∧ e < p.k then memory (.matrixA (p.baseA + (i * p.k + e))) else math.zero

/-- The element of the second operand at a depth and a column, padded with zeros. -/
def paddedB (math : GemmMath α) (p : TiledProduct) (memory : GemmCell → α) (e j : ℕ) : α :=
  if e < p.k ∧ j < p.n then memory (.matrixB (p.baseB + p.indexB e j)) else math.zero

/-- The fold of an element over a tile. -/
def foldTile (math : GemmMath α) (p : TiledProduct) (tileSide : ℕ) (memory : GemmCell → α)
    (i j : ℕ) (value : α) (tileStart : ℕ) : α :=
  (List.range tileSide).foldl (fun value depth => math.fmaf
    (paddedA math p memory i (tileStart + depth)) (paddedB math p memory (tileStart + depth) j)
    value) value

/-- The thread of a position of the tiles. -/
private theorem owner {i j : ℕ} (hj : j < tileSide) :
    (i * tileSide + j) / tileSide = i ∧ (i * tileSide + j) % tileSide = j := by
  have hpos : 0 < tileSide := Nat.zero_lt_of_lt hj
  rw [Nat.mul_comm, Nat.mul_add_div hpos, Nat.mul_add_mod, Nat.div_eq_of_lt hj, Nat.mod_eq_of_lt hj,
    Nat.add_zero]
  exact ⟨rfl, rfl⟩

/-- The cells that the threads of a block write in the output. -/
def elements (p : TiledProduct) (tileSide : ℕ) (blockIdx : Dim3) : Set GemmCell :=
  {c | ∃ tid < tileSide * tileSide,
    (row tileSide blockIdx tid < p.m ∧ col tileSide blockIdx tid < p.n) ∧
      c = .output (p.baseOutput + (row tileSide blockIdx tid * p.n + col tileSide blockIdx tid))}

/-- The first phase of a round stages the tiles. -/
private theorem stage_phase {b : Block GemmCell (GemmCell.Value α) Unit} {order : List ℕ}
    (horder : order.Perm (List.range (tileSide * tileSide))) {tileStart : ℕ} {rounds : List ℕ}
    {value : ℕ → α} (h : ∀ t < tileSide * tileSide,
      b.thread t = p.rest math tileSide blockIdx (tileStart :: rounds) t (value t)) :
    (∀ t < tileSide * tileSide, (b.phase order).thread t =
      (multiplyTiles math tileSide t (value t) >>= fun value => Thread.barrier >>= fun _ =>
        p.rest math tileSide blockIdx rounds t value)) ∧
    (∀ t < tileSide * tileSide,
      (b.phase order).memory (.tileA t) = paddedA math p b.memory (row tileSide blockIdx t)
        (tileStart + t % tileSide) ∧
      (b.phase order).memory (.tileB t) = paddedB math p b.memory (tileStart + t / tileSide)
        (col tileSide blockIdx t)) ∧
    ∀ c ∉ GemmCell.tiles, (b.phase order).memory c = b.memory c := by
  have hmem (t : ℕ) : t ∈ order ↔ t < tileSide * tileSide := mem_order horder
  have hordered : Ordered (p.stageFootprint tileSide blockIdx) order :=
    separate_stage.ordered horder
  obtain ⟨hthread, hwritten, hkept⟩ := phase_spec hordered (nodup_order horder) b fun t ht => by
    rw [h t ((hmem t).1 ht)]
    exact (follows_rest (tileStart :: rounds) (value t)).begins
  have hadvance (t : ℕ) (ht : t < tileSide * tileSide) : (b.thread t).advance b.memory =
      ((multiplyTiles math tileSide t (value t) >>= fun value => Thread.barrier >>= fun _ =>
        p.rest math tileSide blockIdx rounds t value),
      Function.update (Function.update b.memory (.tileA t)
        (paddedA math p b.memory (row tileSide blockIdx t) (tileStart + t % tileSide))) (.tileB t)
        (paddedB math p b.memory (tileStart + t / tileSide) (col tileSide blockIdx t))) := by
    rw [h t ht, rest_cons, stageTiles, Thread.bind_assoc, advance_stage_bind, advance_stage_bind,
      tile_index, paddedB, Function.update_of_ne (by simp)]
    rfl
  refine ⟨fun t ht => ?_, fun t ht => ⟨?_, ?_⟩, fun c hc => ?_⟩
  · rw [hthread t ((hmem t).2 ht), hadvance t ht]
  · rw [hwritten t ((hmem t).2 ht) _ (.inl rfl), hadvance t ht]
    have hne : GemmCell.tileA t ≠ .tileB t := nofun
    dsimp only
    rw [Function.update_of_ne hne, Function.update_self]
  · rw [hwritten t ((hmem t).2 ht) _ (.inr (.inl rfl)), hadvance t ht]
    exact Function.update_self ..
  · by_cases hown : ∃ t ∈ order, c ∈ (p.stageFootprint tileSide blockIdx t).writes
    · obtain ⟨t, ht, hc'⟩ := hown
      have hneA : c ≠ .tileA t := fun heq => hc ⟨t, .inl heq⟩
      have hneB : c ≠ .tileB t := fun heq => hc ⟨t, .inr heq⟩
      rw [hwritten t ht c hc', hadvance t ((hmem t).1 ht)]
      dsimp only
      rw [Function.update_of_ne hneB, Function.update_of_ne hneA]
    · exact hkept c fun t ht hc' => hown ⟨t, ht, hc'⟩

/-- The second phase of a round continues the folds. -/
private theorem multiply_phase {b : Block GemmCell (GemmCell.Value α) Unit} {order : List ℕ}
    (horder : order.Perm (List.range (tileSide * tileSide))) {rounds : List ℕ} {value : ℕ → α}
    (h : ∀ t < tileSide * tileSide, b.thread t =
      (multiplyTiles math tileSide t (value t) >>= fun value => Thread.barrier >>= fun _ =>
        p.rest math tileSide blockIdx rounds t value)) :
    (∀ t < tileSide * tileSide, (b.phase order).thread t =
      p.rest math tileSide blockIdx rounds t ((List.range tileSide).foldl (fun value depth =>
        math.fmaf (b.memory (.tileA (t / tileSide * tileSide + depth)))
          (b.memory (.tileB (depth * tileSide + t % tileSide))) value) (value t))) ∧
    ∀ c, (b.phase order).memory c = b.memory c := by
  have hmem (t : ℕ) : t ∈ order ↔ t < tileSide * tileSide := mem_order horder
  have hordered : Ordered (fun _ => multiplyFootprint) order := separate_multiply.ordered horder
  obtain ⟨hthread, -, hkept⟩ := phase_spec hordered (nodup_order horder) b fun t ht => by
    rw [h t ((hmem t).1 ht)]
    exact (within_multiplyTiles (value t)).begins_barrier _
  refine ⟨fun t ht => ?_, fun c => hkept c fun _ _ => Set.notMem_empty c⟩
  rw [hthread t ((hmem t).2 ht), h t ht, advance_multiply_bind]
  rfl

/-- The last phase stores the elements. -/
private theorem store_phase {b : Block GemmCell (GemmCell.Value α) Unit} {order : List ℕ}
    (horder : order.Perm (List.range (tileSide * tileSide))) {value : ℕ → α}
    (h : ∀ t < tileSide * tileSide, b.thread t = p.rest math tileSide blockIdx [] t (value t)) :
    Finished (tileSide * tileSide) (b.phase order) ∧
    (∀ t < tileSide * tileSide,
      row tileSide blockIdx t < p.m ∧ col tileSide blockIdx t < p.n →
        (b.phase order).memory (.output (p.baseOutput +
          (row tileSide blockIdx t * p.n + col tileSide blockIdx t))) = value t) ∧
    ∀ c ∉ GemmCell.tiles, c ∉ p.elements tileSide blockIdx →
      (b.phase order).memory c = b.memory c := by
  have hmem (t : ℕ) : t ∈ order ↔ t < tileSide * tileSide := mem_order horder
  have hordered : Ordered (p.stageFootprint tileSide blockIdx) order :=
    separate_stage.ordered horder
  obtain ⟨hthread, hwritten, hkept⟩ := phase_spec hordered (nodup_order horder) b fun t ht => by
    rw [h t ((hmem t).1 ht)]
    exact (follows_rest [] (value t)).begins
  refine ⟨fun t ht => ?_, fun t ht hin => ?_, fun c htile hout => hkept c fun t ht hc => ?_⟩
  · rw [hthread t ((hmem t).2 ht), h t ht]
    change ∃ a, ((p.storeElement tileSide blockIdx t (value t)).advance b.memory).1 = .pure a
    rw [storeElement]
    split_ifs <;> exact ⟨(), rfl⟩
  · rw [hwritten t ((hmem t).2 ht) _ (.inr (.inr ⟨hin, rfl⟩)), h t ht]
    change ((p.storeElement tileSide blockIdx t (value t)).advance b.memory).2 _ = value t
    rw [storeElement, if_pos hin]
    exact Function.update_self ..
  · rcases hc with rfl | rfl | ⟨hin, rfl⟩
    · exact htile ⟨t, .inl rfl⟩
    · exact htile ⟨t, .inr rfl⟩
    · exact hout ⟨t, (hmem t).1 ht, hin, rfl⟩

/-- Memories with the same operands have the same padded elements. -/
private theorem foldTile_congr {memory memory' : GemmCell → α}
    (hA : ∀ i, memory (.matrixA i) = memory' (.matrixA i))
    (hB : ∀ i, memory (.matrixB i) = memory' (.matrixB i)) :
    foldTile math p tileSide memory = foldTile math p tileSide memory' := by
  funext i j value tileStart
  simp only [foldTile, paddedA, paddedB, hA, hB]

/-- A block at the beginning of a round ends, and leaves the folds of its threads. -/
theorem run_rest (rounds : List ℕ) {b : Block GemmCell (GemmCell.Value α) Unit}
    {schedule : ℕ → List ℕ} (hschedule : IsSchedule (tileSide * tileSide) schedule) {value : ℕ → α}
    (h : ∀ t < tileSide * tileSide,
      b.thread t = p.rest math tileSide blockIdx rounds t (value t)) :
    ∃ n, Finished (tileSide * tileSide) (run schedule b n) ∧
      (∀ t < tileSide * tileSide,
        row tileSide blockIdx t < p.m ∧ col tileSide blockIdx t < p.n →
          (run schedule b n).memory (.output (p.baseOutput +
            (row tileSide blockIdx t * p.n + col tileSide blockIdx t))) =
              rounds.foldl (foldTile math p tileSide b.memory (row tileSide blockIdx t)
                (col tileSide blockIdx t)) (value t)) ∧
      ∀ c ∉ GemmCell.tiles, c ∉ p.elements tileSide blockIdx →
        (run schedule b n).memory c = b.memory c := by
  induction rounds generalizing b schedule value with
  | nil => exact ⟨1, store_phase (hschedule 0) h⟩
  | cons tileStart rounds ih =>
    obtain ⟨hthread, htiles, hkept⟩ := stage_phase (hschedule 0) h
    obtain ⟨hthread', hkept'⟩ := multiply_phase (hschedule 1) hthread
    -- The tiles that a thread reads have been staged by the threads of its row and of its column.
    have hvalue (t : ℕ) (ht : t < tileSide * tileSide) :
        (List.range tileSide).foldl (fun value depth =>
          math.fmaf ((b.phase (schedule 0)).memory (.tileA (t / tileSide * tileSide + depth)))
            ((b.phase (schedule 0)).memory (.tileB (depth * tileSide + t % tileSide))) value)
          (value t) =
        foldTile math p tileSide b.memory (row tileSide blockIdx t) (col tileSide blockIdx t)
          (value t) tileStart := by
      obtain ⟨hy, hx⟩ := thread_lt ht
      refine List.foldl_ext _ _ _ fun value depth hdepth => ?_
      have hdepth := List.mem_range.1 hdepth
      obtain ⟨hdivA, hmodA⟩ := @owner tileSide (t / tileSide) depth hdepth
      obtain ⟨hdivB, hmodB⟩ := @owner tileSide depth (t % tileSide) hx
      rw [(htiles _ (tile_index_lt hy hdepth)).1,
        (htiles _ (tile_index_lt hdepth hx)).2, hmodA, hdivB, row, hdivA, col, hmodB]
      rfl
    have hnext : ∀ t < tileSide * tileSide,
        ((b.phase (schedule 0)).phase (schedule 1)).thread t =
          p.rest math tileSide blockIdx rounds t (foldTile math p tileSide b.memory
            (row tileSide blockIdx t) (col tileSide blockIdx t) (value t) tileStart) := by
      intro t ht
      rw [hthread' t ht, hvalue t ht]
    have hmemory (c : GemmCell) (hc : c ∉ GemmCell.tiles) :
        ((b.phase (schedule 0)).phase (schedule 1)).memory c = b.memory c :=
      (hkept' c).trans (hkept c hc)
    obtain ⟨n, hfinished, hresult, hrest⟩ := ih (fun i => hschedule (i + 2)) hnext
    refine ⟨n + 2, ?_, fun t ht hin => ?_, fun c htile hout => ?_⟩
    · rw [run_succ, run_succ]
      exact hfinished
    · rw [run_succ, run_succ]
      refine (hresult t ht hin).trans ?_
      rw [foldTile_congr (fun i => hmemory (.matrixA i) ?_) fun i => hmemory (.matrixB i) ?_,
        List.foldl_cons]
      · rintro ⟨j, hj | hj⟩ <;> cases hj
      · rintro ⟨j, hj | hj⟩ <;> cases hj
    · rw [run_succ, run_succ]
      exact (hrest c htile hout).trans (hmemory c htile)

end TiledProduct

end NNIS
