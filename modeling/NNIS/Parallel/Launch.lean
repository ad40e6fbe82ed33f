import Mathlib.Algebra.Ring.Nat
import NNIS.Parallel.Footprint

/-!
# Launches of grids

The blocks of a launch run one after another, in any order. A block finds the global cells as those
before it have left them, and its shared cells in any state. When no block writes an operand of a
later one and the value that a block leaves in a cell is the same for all blocks, the order does not
matter.

## Main definitions

* `Dim3`, `Dim3.indices` — the blocks of a grid.
* `Launches`, `BlockEffect`, `BlockLaw` — what a launch may leave, and what its blocks leave.
* `Thread.Touches`, `Thread.Writes` — the accesses of a thread whatever it reads.

## Main results

* `Launches.effects`, `exists_launches_of_effects` — blocks with operands of their own.
* `Launches.spec`, `exists_launches` — blocks with common operands.
-/

set_option autoImplicit false

namespace NNIS

/-! ### The accesses of a thread -/

namespace Thread

variable {C : Type} {Val : C → Type} {α β ι : Type}

/-- Whatever is read, all accesses satisfy a condition. -/
def Touches (ok : Access C → Prop) : Thread C Val α → Prop
  | .pure _ => True
  | .read c k => ok (.read c) ∧ ∀ v, (k v).Touches ok
  | .write c _ k => ok (.write c) ∧ k.Touches ok
  | .sync k => k.Touches ok

/-- Whatever is read, a cell is written a number of times. -/
def Writes [DecidableEq C] (c : C) : Thread C Val α → ℕ → Prop
  | .pure _, n => n = 0
  | .read _ k, n => ∀ v, (k v).Writes c n
  | .write c' _ k, n => if c' = c then ∃ n', n = n' + 1 ∧ k.Writes c n' else k.Writes c n
  | .sync k, n => k.Writes c n

section Touches

variable {ok : Access C → Prop}

theorem Touches.bind {p : Thread C Val α} {k : α → Thread C Val β} (hp : p.Touches ok)
    (hk : ∀ a, (k a).Touches ok) : (p >>= k).Touches ok := by
  induction p with
  | pure a => exact hk a
  | read c k' ih => exact ⟨hp.1, fun v => ih v (hp.2 v)⟩
  | write c v k' ih => exact ⟨hp.1, ih hp.2⟩
  | sync k' ih => exact ih hp

theorem Touches.barrier_bind {k : Unit → Thread C Val β} (h : (k ()).Touches ok) :
    (barrier >>= k : Thread C Val β).Touches ok := h

theorem Touches.fold {l : List ι} {a : α} {body : α → ι → Thread C Val α}
    (h : ∀ a, ∀ i ∈ l, (body a i).Touches ok) : (fold l a body).Touches ok := by
  induction l generalizing a with
  | nil => exact trivial
  | cons i l ih =>
    exact (h a i List.mem_cons_self).bind fun a' =>
      ih fun a j hj => h a j (List.mem_cons_of_mem i hj)

theorem Touches.forEach {l : List ι} {body : ι → Thread C Val Unit}
    (h : ∀ i ∈ l, (body i).Touches ok) : (forEach l body).Touches ok := by
  induction l with
  | nil => exact trivial
  | cons i l ih =>
    exact (h i List.mem_cons_self).bind fun _ => ih fun j hj => h j (List.mem_cons_of_mem i hj)

theorem Touches.ite {b : Prop} [Decidable b] {p q : Thread C Val α} (hp : b → p.Touches ok)
    (hq : ¬ b → q.Touches ok) : (if b then p else q).Touches ok := by
  split_ifs with hb
  · exact hp hb
  · exact hq hb

end Touches

section Writes

variable [DecidableEq C] {c : C}

theorem Writes.bind {p : Thread C Val α} {k : α → Thread C Val β} {m n : ℕ} (hp : p.Writes c m)
    (hk : ∀ a, (k a).Writes c n) : (p >>= k).Writes c (m + n) := by
  induction p generalizing m with
  | pure a =>
    obtain rfl : m = 0 := hp
    rw [Nat.zero_add]
    exact hk a
  | read c' k' ih => exact fun v => ih v (hp v)
  | write c' v k' ih =>
    change if c' = c then ∃ n', m + n = n' + 1 ∧ _ else _
    change if c' = c then ∃ n', m = n' + 1 ∧ _ else _ at hp
    by_cases h : c' = c
    · rw [if_pos h] at hp ⊢
      obtain ⟨m', rfl, hp⟩ := hp
      exact ⟨m' + n, by omega, ih hp⟩
    · rw [if_neg h] at hp ⊢
      exact ih hp
  | sync k' ih => exact ih hp

theorem Writes.fold {l : List ι} {a : α} {body : α → ι → Thread C Val α}
    (h : ∀ a, ∀ i ∈ l, (body a i).Writes c 0) : (fold l a body).Writes c 0 := by
  induction l generalizing a with
  | nil => exact rfl
  | cons i l ih =>
    exact (h a i List.mem_cons_self).bind fun a' =>
      ih fun a j hj => h a j (List.mem_cons_of_mem i hj)

/-- A loop writes a cell as often as its rounds do. -/
theorem Writes.forEach {l : List ι} {body : ι → Thread C Val Unit} {count : ι → ℕ}
    (h : ∀ i ∈ l, (body i).Writes c (count i)) : (forEach l body).Writes c (l.map count).sum := by
  induction l with
  | nil => exact rfl
  | cons i l ih =>
    rw [List.map_cons, List.sum_cons]
    exact (h i List.mem_cons_self).bind fun _ => ih fun j hj => h j (List.mem_cons_of_mem i hj)

theorem writes_store (c' : C) (v : Val c') :
    (store c' v : Thread C Val Unit).Writes c (if c' = c then 1 else 0) := by
  change if c' = c then ∃ n', _ = n' + 1 ∧ n' = 0 else _ = 0
  split_ifs
  · exact ⟨0, rfl, rfl⟩
  · rfl

theorem Writes.barrier_bind {k : Unit → Thread C Val β} {n : ℕ} (h : (k ()).Writes c n) :
    (barrier >>= k : Thread C Val β).Writes c n := h

theorem Writes.ite {b : Prop} [Decidable b] {p q : Thread C Val α} {m n : ℕ}
    (hp : b → p.Writes c m) (hq : ¬ b → q.Writes c n) :
    (if b then p else q).Writes c (if b then m else n) := by
  split_ifs with h
  · exact hp h
  · exact hq h

/-- The number is unique. -/
theorem Writes.unique [∀ c, Nonempty (Val c)] {p : Thread C Val α} {m n : ℕ} (hm : p.Writes c m)
    (hn : p.Writes c n) : m = n := by
  induction p generalizing m n with
  | pure a => exact Eq.trans hm (Eq.symm hn)
  | read c' k ih => exact ih (Classical.arbitrary _) (hm _) (hn _)
  | write c' v k ih =>
    change if c' = c then _ else _ at hm
    change if c' = c then _ else _ at hn
    split_ifs at hm hn
    · obtain ⟨m', rfl, hm⟩ := hm
      obtain ⟨n', rfl, hn⟩ := hn
      rw [ih hm hn]
    · exact ih hm hn
  | sync k ih => exact ih hm hn

/-- A part without barriers that keeps to a footprint without a cell. -/
theorem Within.writes {f : Footprint C} {p : Thread C Val α} (h : p.Within f) (hc : c ∉ f.writes) :
    p.Writes c 0 := by
  induction p with
  | pure a => exact rfl
  | read c' k ih => exact fun v => ih v (h.2 v)
  | write c' v k ih =>
    change if c' = c then _ else _
    rw [if_neg fun heq : c' = c => hc (heq ▸ h.1)]
    exact ih h.2
  | sync k => exact h.elim

/-- A thread whose writes avoid a cell. -/
theorem Touches.writes {p : Thread C Val α} (h : p.Touches fun a => a ≠ .write c) :
    p.Writes c 0 := by
  induction p with
  | pure a => rfl
  | read c' k ih => exact fun v => ih v (h.2 v)
  | write c' v k ih =>
    change if c' = c then _ else _
    rw [if_neg fun heq => h.1 (congrArg Access.write heq)]
    exact ih h.2
  | sync k ih => exact ih h

end Writes

end Thread

/-! ### Grids -/

/-- Three extents, or three coordinates. -/
structure Dim3 where
  x : ℕ
  y : ℕ
  z : ℕ
  deriving DecidableEq

/-- The blocks of a grid. -/
def Dim3.indices (grid : Dim3) : List Dim3 :=
  (List.range grid.z).flatMap fun z => (List.range grid.y).flatMap fun y =>
    (List.range grid.x).map fun x => ⟨x, y, z⟩

@[simp] theorem Dim3.mem_indices {grid i : Dim3} :
    i ∈ grid.indices ↔ i.x < grid.x ∧ i.y < grid.y ∧ i.z < grid.z := by
  simp only [Dim3.indices, List.mem_flatMap, List.mem_map, List.mem_range]
  constructor
  · rintro ⟨z, hz, y, hy, x, hx, rfl⟩
    exact ⟨hx, hy, hz⟩
  · rintro ⟨hx, hy, hz⟩
    exact ⟨i.z, hz, i.y, hy, i.x, hx, rfl⟩

/-! ### Launches -/

section Launches

variable {C : Type} {Val : C → Type} {α ι : Type} [DecidableEq C]

open Block

/-- The memories between which the blocks of a list may run, one after another. -/
inductive Launches (shared : Set C) (width : ℕ) (thread : ι → ℕ → Thread C Val α) :
    List ι → ((c : C) → Val c) → ((c : C) → Val c) → Prop
  | nil (m) : Launches shared width thread [] m m
  | cons {i rest m start m₁ m₂ schedule} (hstart : ∀ c ∉ shared, start c = m c)
    (hschedule : IsSchedule width schedule)
    (hends : Ends width ⟨thread i, start⟩ schedule m₁)
    (hrest : Launches shared width thread rest m₁ m₂) :
    Launches shared width thread (i :: rest) m m₂

/-- What every run of a block leaves when its operands hold what they hold in a memory. A block may
write its own operands. -/
structure BlockEffect (shared operands : Set C) (width : ℕ) (thread : ℕ → Thread C Val α)
    (writes : Set C) (memory value : (c : C) → Val c) : Prop where
  ends : ∀ start, (∀ c ∈ operands, start c = memory c) → ∀ schedule, IsSchedule width schedule →
    ∃ m, Ends width ⟨thread, start⟩ schedule m
  written : ∀ start, (∀ c ∈ operands, start c = memory c) → ∀ schedule,
    IsSchedule width schedule → ∀ m, Ends width ⟨thread, start⟩ schedule m →
      ∀ c ∈ writes, m c = value c
  kept : ∀ start, (∀ c ∈ operands, start c = memory c) → ∀ schedule,
    IsSchedule width schedule → ∀ m, Ends width ⟨thread, start⟩ schedule m →
      ∀ c ∉ shared, c ∉ writes → m c = start c
  writes_not : ∀ c ∈ writes, c ∉ shared

/-- What every run of a block leaves when the operands of all blocks hold what they hold in a
memory. No block writes them. -/
structure BlockLaw (shared operands : Set C) (width : ℕ) (thread : ℕ → Thread C Val α)
    (writes : Set C) (memory value : (c : C) → Val c) : Prop where
  ends : ∀ start, (∀ c ∈ operands, start c = memory c) → ∀ schedule, IsSchedule width schedule →
    ∃ m, Ends width ⟨thread, start⟩ schedule m
  written : ∀ start, (∀ c ∈ operands, start c = memory c) → ∀ schedule,
    IsSchedule width schedule → ∀ m, Ends width ⟨thread, start⟩ schedule m →
      ∀ c ∈ writes, m c = value c
  kept : ∀ start, (∀ c ∈ operands, start c = memory c) → ∀ schedule,
    IsSchedule width schedule → ∀ m, Ends width ⟨thread, start⟩ schedule m →
      ∀ c ∉ shared, c ∉ writes → m c = start c
  writes_not : ∀ c ∈ writes, c ∉ shared ∧ c ∉ operands

/-! ### Blocks with operands of their own -/

section Effects

variable {shared : Set C} {operands : ι → Set C} {width : ℕ} {thread : ι → ℕ → Thread C Val α}
  {writes : ι → Set C} {memory value : (c : C) → Val c} {blocks : List ι}

/-- After a block the operands of the later ones hold what they held. -/
private theorem BlockEffect.later {i : ι} {rest : List ι}
    (heffect : BlockEffect shared (operands i) width (thread i) (writes i) memory value)
    (hoperands : ∀ j ∈ rest, ∀ c ∈ operands j, c ∉ shared)
    (hseparate : ∀ j ∈ rest, ∀ c ∈ writes i, c ∉ operands j) {start m₁ : (c : C) → Val c}
    (hstart : ∀ c ∈ operands i, start c = memory c)
    (hrest : ∀ j ∈ rest, ∀ c ∈ operands j, start c = memory c) {schedule : ℕ → List ℕ}
    (hschedule : IsSchedule width schedule) (hends : Ends width ⟨thread i, start⟩ schedule m₁) :
    ∀ j ∈ rest, ∀ c ∈ operands j, m₁ c = memory c := fun j hj c hc =>
  (heffect.kept start hstart schedule hschedule m₁ hends c (hoperands j hj c hc) fun hw =>
    hseparate j hj c hw hc).trans (hrest j hj c hc)

/-- A launch leaves the value of each cell that a block writes, and the other global cells as they
were, when no block writes an operand of a later one. -/
theorem Launches.effects (hoperands : ∀ i ∈ blocks, ∀ c ∈ operands i, c ∉ shared)
    (heffect : ∀ i ∈ blocks,
      BlockEffect shared (operands i) width (thread i) (writes i) memory value)
    (hseparate : blocks.Pairwise fun i j => ∀ c ∈ writes i, c ∉ operands j)
    {m m' : (c : C) → Val c} (h : Launches shared width thread blocks m m')
    (hm : ∀ i ∈ blocks, ∀ c ∈ operands i, m c = memory c) :
    (∀ i ∈ blocks, ∀ c ∈ writes i, m' c = value c) ∧
      ∀ c ∉ shared, (∀ i ∈ blocks, c ∉ writes i) → m' c = m c := by
  induction h with
  | nil m => exact ⟨fun i hi => absurd hi List.not_mem_nil, fun _ _ _ => rfl⟩
  | @cons i rest m start m₁ m₂ schedule hstart hschedule hends hrest ih =>
    obtain ⟨hbefore, hseparate⟩ := List.pairwise_cons.1 hseparate
    have hi := heffect i List.mem_cons_self
    have hstart' : ∀ j ∈ i :: rest, ∀ c ∈ operands j, start c = memory c := fun j hj c hc =>
      (hstart c (hoperands j hj c hc)).trans (hm j hj c hc)
    have hown := hstart' i List.mem_cons_self
    have hm₁ := hi.later (fun j hj => hoperands j (List.mem_cons_of_mem i hj)) hbefore hown
      (fun j hj => hstart' j (List.mem_cons_of_mem i hj)) hschedule hends
    obtain ⟨hwritten, hrest'⟩ := ih (fun j hj => hoperands j (List.mem_cons_of_mem i hj))
      (fun j hj => heffect j (List.mem_cons_of_mem i hj)) hseparate hm₁
    refine ⟨fun j hj c hc => ?_, fun c hc hnone => ?_⟩
    · by_cases hlater : ∃ u ∈ rest, c ∈ writes u
      · obtain ⟨u, hu, hcu⟩ := hlater
        exact hwritten u hu c hcu
      · have hnone : ∀ u ∈ rest, c ∉ writes u := fun u hu hcu => hlater ⟨u, hu, hcu⟩
        rcases List.mem_cons.1 hj with rfl | hj
        · rw [hrest' c (hi.writes_not c hc) hnone]
          exact hi.written start hown schedule hschedule m₁ hends c hc
        · exact absurd hc (hnone j hj)
    · rw [hrest' c hc fun u hu => hnone u (List.mem_cons_of_mem i hu),
        hi.kept start hown schedule hschedule m₁ hends c hc (hnone i List.mem_cons_self),
        hstart c hc]

/-- A launch whose blocks end. -/
theorem exists_launches_of_effects (hoperands : ∀ i ∈ blocks, ∀ c ∈ operands i, c ∉ shared)
    (heffect : ∀ i ∈ blocks,
      BlockEffect shared (operands i) width (thread i) (writes i) memory value)
    (hseparate : blocks.Pairwise fun i j => ∀ c ∈ writes i, c ∉ operands j)
    {m : (c : C) → Val c} (hm : ∀ i ∈ blocks, ∀ c ∈ operands i, m c = memory c) :
    ∃ m', Launches shared width thread blocks m m' := by
  induction blocks generalizing m with
  | nil => exact ⟨m, .nil m⟩
  | cons i rest ih =>
    obtain ⟨hbefore, hseparate⟩ := List.pairwise_cons.1 hseparate
    have hi := heffect i List.mem_cons_self
    have hown := hm i List.mem_cons_self
    have hschedule : IsSchedule width fun _ => List.range width := fun _ => List.Perm.refl _
    obtain ⟨m₁, hends⟩ := hi.ends m hown _ hschedule
    have hm₁ := hi.later (fun j hj => hoperands j (List.mem_cons_of_mem i hj)) hbefore hown
      (fun j hj => hm j (List.mem_cons_of_mem i hj)) hschedule hends
    obtain ⟨m', hm'⟩ := ih (fun j hj => hoperands j (List.mem_cons_of_mem i hj))
      (fun j hj => heffect j (List.mem_cons_of_mem i hj)) hseparate hm₁
    exact ⟨m', .cons (fun _ _ => rfl) hschedule hends hm'⟩

end Effects

/-! ### Blocks with common operands -/

variable {shared operands : Set C} {width : ℕ} {thread : ι → ℕ → Thread C Val α}
  {writes : ι → Set C} {memory value : (c : C) → Val c} {blocks : List ι}

theorem BlockLaw.effect {thread : ℕ → Thread C Val α} {writes : Set C}
    (h : BlockLaw shared operands width thread writes memory value) :
    BlockEffect shared operands width thread writes memory value :=
  ⟨h.ends, h.written, h.kept, fun c hc => (h.writes_not c hc).1⟩

private theorem BlockLaw.separate
    (hlaw : ∀ i ∈ blocks, BlockLaw shared operands width (thread i) (writes i) memory value) :
    blocks.Pairwise fun i _ => ∀ c ∈ writes i, c ∉ operands :=
  List.pairwise_of_forall_mem_list fun i hi _ _ c hc => ((hlaw i hi).writes_not c hc).2

/-- A launch leaves the value of each cell that a block writes, and the other global cells as they
were. -/
theorem Launches.spec (hoperands : ∀ c ∈ operands, c ∉ shared)
    (hlaw : ∀ i ∈ blocks, BlockLaw shared operands width (thread i) (writes i) memory value)
    {m m' : (c : C) → Val c} (h : Launches shared width thread blocks m m')
    (hm : ∀ c ∈ operands, m c = memory c) :
    (∀ i ∈ blocks, ∀ c ∈ writes i, m' c = value c) ∧
      ∀ c ∉ shared, (∀ i ∈ blocks, c ∉ writes i) → m' c = m c :=
  Launches.effects (fun _ _ => hoperands) (fun i hi => (hlaw i hi).effect)
  (BlockLaw.separate hlaw) h
    fun _ _ => hm

/-- A launch whose blocks end. -/
theorem exists_launches (hoperands : ∀ c ∈ operands, c ∉ shared)
    (hlaw : ∀ i ∈ blocks, BlockLaw shared operands width (thread i) (writes i) memory value)
    {m : (c : C) → Val c} (hm : ∀ c ∈ operands, m c = memory c) :
    ∃ m', Launches shared width thread blocks m m' :=
  exists_launches_of_effects (fun _ _ => hoperands) (fun i hi => (hlaw i hi).effect)
    (BlockLaw.separate hlaw) fun _ _ => hm

end Launches

end NNIS
