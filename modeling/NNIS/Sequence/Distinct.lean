import Mathlib.Data.List.Chain
import Mathlib.Data.List.Nodup
import Mathlib.Data.List.Perm.Subperm
import Mathlib.Data.Nat.Notation
import Mathlib.Data.Set.Function

/-!
# Lists without repetition

The pairs of adjacent elements of a list, and lists all of whose adjacent elements are related; a
strictly increasing list has no element twice. A list whose keys meet each of a list of distinct
places exactly once, and that has no more elements than there are places, is in bijection with the
places.

## Main definitions

* `windows`.

## Main results

* `forall_mem_windows_iff` — a relation of adjacent elements is a chain.
* `nodup_of_forall_windows` — strictly increasing lists have no element twice.
* `perm_of_filter_ne_nil` — the keys are a rearrangement of the places.
* `bijOn_get_of_perm` — a rearrangement of distinct places is a bijection.
-/

set_option autoImplicit false

namespace NNIS

universe u v

variable {α : Type u}

/-- The pairs of adjacent elements. -/
def windows (l : List α) : List (α × α) := l.zip l.tail

theorem forall_mem_windows_iff (r : α → α → Prop) (l : List α) :
    (∀ pair ∈ windows l, r pair.1 pair.2) ↔ l.IsChain r := by
  induction l with
  | nil => exact ⟨fun _ => .nil, fun _ => nofun⟩
  | cons a l ih =>
    cases l with
    | nil => exact ⟨fun _ => .singleton a, fun _ => nofun⟩
    | cons b l =>
      rw [List.isChain_cons_cons, ← ih]
      exact List.forall_mem_cons

/-- A list whose adjacent elements increase for a strict order has no element twice. -/
theorem nodup_of_forall_windows (r : α → α → Prop) [IsTrans α r] [Std.Irrefl r] {l : List α}
    (h : ∀ pair ∈ windows l, r pair.1 pair.2) : l.Nodup := by
  have hpairwise : l.Pairwise r := ((forall_mem_windows_iff r l).1 h).pairwise
  refine hpairwise.imp ?_
  rintro a b hab rfl
  exact irrefl_of r a hab

variable {β : Type v}

/-- Places each met at least once are at most as many as the elements. -/
theorem subperm_of_filter_ne_nil [BEq β] [LawfulBEq β] {places : List β} (hnodup : places.Nodup)
    {l : List α} {key : α → β}
    (h : ∀ place ∈ places, (l.filter fun a => key a == place) ≠ []) :
    places.Subperm (l.map key) := by
  refine hnodup.subperm fun place hplace => ?_
  obtain ⟨a, ha⟩ := List.exists_mem_of_ne_nil _ (h place hplace)
  rw [List.mem_filter, beq_iff_eq] at ha
  exact List.mem_map.2 ⟨a, ha⟩

/-- As many keys as there are distinct places, each of which is met, are the places. -/
theorem perm_of_filter_ne_nil [BEq β] [LawfulBEq β] {places : List β} (hnodup : places.Nodup)
    {l : List α} {key : α → β}
    (h : ∀ place ∈ places, (l.filter fun a => key a == place) ≠ [])
    (hlength : l.length ≤ places.length) : (l.map key).Perm places := by
  refine ((subperm_of_filter_ne_nil hnodup h).perm_of_length_le ?_).symm
  rwa [List.length_map]

/-- A list whose keys are a rearrangement of distinct places is in bijection with them. -/
theorem bijOn_get_of_perm {places : List β} (hnodup : places.Nodup) {l : List α} {key : α → β}
    (h : (l.map key).Perm places) :
    Set.BijOn (fun i : Fin l.length => key (l.get i)) Set.univ {place | place ∈ places} := by
  refine ⟨fun i _ => ?_, fun i _ j _ hij => ?_, fun place hplace => ?_⟩
  · exact h.mem_iff.1 (List.mem_map.2 ⟨_, List.get_mem l i, rfl⟩)
  · have hkeys := List.nodup_iff_injective_get.1 (h.nodup_iff.2 hnodup)
    have hlength : (l.map key).length = l.length := List.length_map key
    have hget : (l.map key).get (i.cast hlength.symm) = (l.map key).get (j.cast hlength.symm) := by
      simpa only [List.get_eq_getElem, List.getElem_map, Fin.val_cast] using hij
    have heq := hkeys hget
    rw [Fin.ext_iff] at heq
    exact Fin.ext heq
  · obtain ⟨a, ha, rfl⟩ := List.mem_map.1 (h.mem_iff.2 hplace)
    obtain ⟨i, rfl⟩ := List.get_of_mem ha
    exact ⟨i, trivial, rfl⟩

end NNIS
