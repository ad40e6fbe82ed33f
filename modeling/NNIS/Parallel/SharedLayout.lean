import Mathlib.Data.List.Pairwise
import Mathlib.Order.CompletePartialOrder
import Mathlib.Order.Interval.Set.Disjoint
import NNIS.Parallel.Launch

/-!
# Layouts of shared memory

The threads of a block address its shared memory by regions: each begins at some byte and holds
elements of one size. A layout matches a launch when the regions do not overlap, every index that a
thread forms in a region stays inside of it, the regions lie in the bytes that the launch asks for,
and they begin at multiples of the sizes of their elements.

## Main definitions

* `RegionCell`, `SharedRegion` — cells by regions, and the bytes of a region.
* `LayoutMatches` — a layout matches a launch.
* `Thread.relabel` — the same thread over cells with other names.

## Main results

* `Packed.disjoint`, `Packed.bytes_subset` — regions one after another.
* `LayoutMatches.of_packed` — the rule for them.
-/

set_option autoImplicit false

namespace NNIS

/-- A cell of a region of the shared memory, or one of the global memory. -/
inductive RegionCell (R G : Type)
  | shared (region : R) (index : ℕ)
  | global (cell : G)

/-- A region of the shared memory: its first byte, and the size and the number of its elements. -/
structure SharedRegion where
  start : ℕ
  elementSize : ℕ
  length : ℕ

namespace SharedRegion

/-- The first byte after a region. -/
def stop (r : SharedRegion) : ℕ := r.start + r.elementSize * r.length

/-- The bytes of a region. -/
def bytes (r : SharedRegion) : Set ℕ := Set.Ico r.start r.stop

theorem start_le_stop (r : SharedRegion) : r.start ≤ r.stop := Nat.le_add_right _ _

end SharedRegion

section Layout

variable {R G : Type} (region : R → SharedRegion)

/-- The index of a cell lies in its region. -/
def RegionCell.Inside : RegionCell R G → Prop
  | .shared r i => i < (region r).length
  | .global _ => True

/-- The cell that is accessed. -/
def Access.target {C : Type} : Access C → C
  | .read c => c
  | .write c => c

/-- A layout of regions matches a launch of blocks of some threads with some bytes of shared memory,
which begins at a multiple of 16 bytes. -/
structure LayoutMatches {Val : RegionCell R G → Type} {α : Type} (sharedMemoryBytes width : ℕ)
    (thread : ℕ → Thread (RegionCell R G) Val α) : Prop where
  disjoint : ∀ r s, r ≠ s → Disjoint (region r).bytes (region s).bytes
  inside : ∀ lane < width, (thread lane).Touches fun access => access.target.Inside region
  fits : ∀ r, (region r).bytes ⊆ Set.Ico 0 sharedMemoryBytes
  aligned : ∀ base, 16 ∣ base → ∀ r, (region r).elementSize ∣ base + (region r).start

/-! ### Regions one after another -/

/-- Regions follow one another between two bytes. -/
def Packed : ℕ → List R → ℕ → Prop
  | first, [], last => first ≤ last
  | first, r :: rest, last => first ≤ (region r).start ∧ Packed (region r).stop rest last

variable {region} {first last : ℕ} {order : List R}

theorem Packed.bounds (h : Packed region first order last) :
    first ≤ last ∧ ∀ r ∈ order, first ≤ (region r).start ∧ (region r).stop ≤ last := by
  induction order generalizing first with
  | nil => exact ⟨h, fun r hr => nomatch hr⟩
  | cons r rest ih =>
    obtain ⟨hstart, hrest⟩ := h
    obtain ⟨hstop, hall⟩ := ih hrest
    have hfirst : first ≤ (region r).stop := hstart.trans (region r).start_le_stop
    refine ⟨hfirst.trans hstop, fun s hs => ?_⟩
    rcases List.mem_cons.1 hs with rfl | hs
    · exact ⟨hstart, hstop⟩
    · exact ⟨hfirst.trans (hall s hs).1, (hall s hs).2⟩

theorem Packed.pairwise (h : Packed region first order last) :
    order.Pairwise fun r s => Disjoint (region r).bytes (region s).bytes := by
  induction order generalizing first with
  | nil => exact .nil
  | cons r rest ih =>
    refine .cons (fun s hs => ?_) (ih h.2)
    exact Set.Ico_disjoint_Ico_same.mono_right
      (Set.Ico_subset_Ico_left (h.2.bounds.2 s hs).1)

/-- Regions one after another do not overlap. -/
theorem Packed.disjoint (h : Packed region first order last) {r s : R} (hr : r ∈ order)
    (hs : s ∈ order) (hne : r ≠ s) : Disjoint (region r).bytes (region s).bytes := by
  have hsymm : Std.Symm fun r s => Disjoint (region r).bytes (region s).bytes :=
    ⟨fun _ _ hdisjoint => hdisjoint.symm⟩
  exact h.pairwise.forall hr hs hne

/-- Regions one after another lie between the two bytes. -/
theorem Packed.bytes_subset (h : Packed region first order last) {r : R} (hr : r ∈ order) :
    (region r).bytes ⊆ Set.Ico first last :=
  Set.Ico_subset_Ico (h.bounds.2 r hr).1 (h.bounds.2 r hr).2

/-- The rule for regions one after another. -/
theorem LayoutMatches.of_packed {Val : RegionCell R G → Type} {α : Type}
    {sharedMemoryBytes width : ℕ} {thread : ℕ → Thread (RegionCell R G) Val α} (order : List R)
    (hall : ∀ r, r ∈ order) (hpacked : Packed region 0 order sharedMemoryBytes)
    (hinside : ∀ lane < width, (thread lane).Touches fun access => access.target.Inside region)
    (haligned : ∀ r, (region r).elementSize ∣ 16 ∧ (region r).elementSize ∣ (region r).start) :
    LayoutMatches region sharedMemoryBytes width thread where
  disjoint r s hne := hpacked.disjoint (hall r) (hall s) hne
  inside := hinside
  fits r := hpacked.bytes_subset (hall r)
  aligned _ hbase r := Nat.dvd_add (Nat.dvd_trans (haligned r).1 hbase) (haligned r).2

end Layout

/-! ### Cells with other names -/

namespace Thread

variable {C D : Type} {Val : D → Type} {α β ι : Type} (f : C → D)

/-- The same accesses of cells with other names. -/
def relabel : Thread C (fun c => Val (f c)) α → Thread D Val α
  | .pure a => .pure a
  | .read c k => .read (f c) fun v => (k v).relabel
  | .write c v k => .write (f c) v k.relabel
  | .sync k => .sync k.relabel

theorem relabel_bind (p : Thread C (fun c => Val (f c)) α)
    (k : α → Thread C (fun c => Val (f c)) β) :
    (p >>= k).relabel f = p.relabel f >>= fun a => (k a).relabel f := by
  induction p with
  | pure a => rfl
  | read c k' ih => exact congrArg (Thread.read (f c)) (funext ih)
  | write c v k' ih => exact congrArg (Thread.write (f c) v) ih
  | sync k' ih => exact congrArg Thread.sync ih

theorem relabel_forEach (l : List ι) (body : ι → Thread C (fun c => Val (f c)) Unit) :
    (forEach l body).relabel f = forEach l fun i => (body i).relabel f := by
  induction l with
  | nil => rfl
  | cons i l ih => exact (relabel_bind f _ _).trans (congrArg _ (funext fun _ => ih))

theorem relabel_fold (l : List ι) (a : α) (body : α → ι → Thread C (fun c => Val (f c)) α) :
    (fold l a body).relabel f = fold l a fun a i => (body a i).relabel f := by
  induction l generalizing a with
  | nil => rfl
  | cons i l ih => exact (relabel_bind f _ _).trans (congrArg _ (funext fun a => ih a))

theorem relabel_ite {b : Prop} [Decidable b] (p q : Thread C (fun c => Val (f c)) α) :
    (if b then p else q).relabel f = if b then p.relabel f else q.relabel f :=
  apply_ite (relabel f) b p q

end Thread

end NNIS
