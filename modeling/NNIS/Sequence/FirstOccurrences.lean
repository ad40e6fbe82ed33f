import Mathlib.Data.List.Nodup
import Mathlib.Data.Nat.Notation
import Mathlib.Algebra.BigOperators.Group.List.Basic

/-!
# The first element of each key

A traversal that keeps the first element of each key and skips the later ones leaves
`firstsBy key l`. Elements are kept in their order, so an element added at the end is either
skipped or put at the end.

## Main definitions

* `firstsBy` — the elements whose key has not been met before.
* `keysBy`, `rankBy`, `placeBy` — their keys, and the place of a key among them.
* `groupsBy` — each kept element with all elements of its key.

## Main results

* `firstsBy_concat` — one more element.
* `nodup_keysBy`, `mem_keysBy_iff` — every key is kept exactly once.
* `rankBy_inj` — keys that were met have one place each.
* `placeBy_concat_of_mem`, `placeBy_concat_of_not_mem`, `groupsBy_concat_of_mem`,
  `groupsBy_concat_of_not_mem` — lookup and groups with one more element.
* `perm_flatMap_groupsBy`, `sum_groupsBy` — the groups are a partition.
-/

set_option autoImplicit false

namespace NNIS

universe u v

variable {α : Type u} {κ : Type v} [DecidableEq κ] (key : α → κ)

/-- The elements whose key has not been met before. -/
def firstsBy : List α → List α
  | [] => []
  | a :: l => a :: (firstsBy l).filter fun b => key b ≠ key a

/-- The distinct keys of a list, in the order in which they are met. -/
def keysBy (l : List α) : List κ := (firstsBy key l).map key

/-- The place of a key among the distinct keys of a list. -/
def rankBy (l : List α) (k : κ) : ℕ := (keysBy key l).idxOf k

variable {key}

theorem mem_of_mem_firstsBy {l : List α} {a : α} (h : a ∈ firstsBy key l) : a ∈ l := by
  induction l with
  | nil => exact h
  | cons b l ih =>
    rw [firstsBy, List.mem_cons] at h
    rcases h with rfl | h
    · exact List.mem_cons_self
    · exact List.mem_cons_of_mem b (ih (List.mem_filter.1 h).1)

variable (key) in
theorem firstsBy_sublist (l : List α) : (firstsBy key l).Sublist l := by
  induction l with
  | nil => exact List.Sublist.refl _
  | cons b l ih => exact (List.filter_sublist.trans ih).cons_cons b

/-- A kept element is the first one of its key. -/
theorem find?_of_mem_firstsBy {l : List α} {a : α} (h : a ∈ firstsBy key l) :
    l.find? (fun b => key b = key a) = some a := by
  induction l with
  | nil => exact absurd h List.not_mem_nil
  | cons b l ih =>
    rw [firstsBy, List.mem_cons] at h
    rcases h with rfl | h
    · exact List.find?_cons_of_pos (decide_eq_true rfl)
    · have hne : key b ≠ key a := fun hk =>
        of_decide_eq_true (List.mem_filter.1 h).2 hk.symm
      rw [List.find?_cons_of_neg (by simpa using hne)]
      exact ih (List.mem_filter.1 h).1

theorem mem_keysBy_iff {l : List α} {k : κ} : k ∈ keysBy key l ↔ k ∈ l.map key := by
  induction l with
  | nil => rfl
  | cons b l ih =>
    rw [keysBy, List.mem_map] at ih
    rw [keysBy, firstsBy, List.map_cons, List.map_cons, List.mem_cons, List.mem_cons]
    by_cases hk : k = key b
    · simp only [hk, true_or]
    · simp only [hk, false_or]
      rw [← ih, List.mem_map]
      constructor
      · rintro ⟨a, ha, rfl⟩
        exact ⟨a, (List.mem_filter.1 ha).1, rfl⟩
      · rintro ⟨a, ha, rfl⟩
        exact ⟨a, List.mem_filter.2 ⟨ha, decide_eq_true hk⟩, rfl⟩

variable (key) in
theorem nodup_keysBy (l : List α) : (keysBy key l).Nodup := by
  induction l with
  | nil => exact List.nodup_nil
  | cons b l ih =>
    rw [keysBy, firstsBy, List.map_cons, List.nodup_cons]
    refine ⟨fun h => ?_, ?_⟩
    · obtain ⟨a, ha, hab⟩ := List.mem_map.1 h
      exact of_decide_eq_true (List.mem_filter.1 ha).2 hab
    · exact ih.sublist (List.filter_sublist.map key)

/-- One more element is skipped if its key has been met, and kept at the end if not. -/
theorem firstsBy_concat (l : List α) (a : α) :
    firstsBy key (l ++ [a]) =
      if key a ∈ l.map key then firstsBy key l else firstsBy key l ++ [a] := by
  induction l with
  | nil => rfl
  | cons b l ih =>
    rw [List.cons_append, firstsBy, ih, List.map_cons]
    by_cases hl : key a ∈ l.map key
    · rw [if_pos hl, if_pos (List.mem_cons_of_mem _ hl), firstsBy]
    · rw [if_neg hl, List.filter_append]
      by_cases hab : key a = key b
      · rw [if_pos (hab ▸ List.mem_cons_self), firstsBy,
          List.filter_cons_of_neg (by simpa using hab), List.filter_nil, List.append_nil]
      · rw [if_neg (by simpa only [List.mem_cons, hab, false_or] using hl), firstsBy,
          List.filter_cons_of_pos (by simpa using hab), List.filter_nil, List.cons_append]

theorem firstsBy_concat_of_mem {l : List α} {a : α} (h : key a ∈ l.map key) :
    firstsBy key (l ++ [a]) = firstsBy key l := by
  rw [firstsBy_concat, if_pos h]

theorem firstsBy_concat_of_not_mem {l : List α} {a : α} (h : key a ∉ l.map key) :
    firstsBy key (l ++ [a]) = firstsBy key l ++ [a] := by
  rw [firstsBy_concat, if_neg h]

@[simp] theorem length_keysBy (l : List α) : (keysBy key l).length = (firstsBy key l).length :=
  List.length_map key

theorem rankBy_lt {l : List α} {k : κ} (h : k ∈ l.map key) :
    rankBy key l k < (firstsBy key l).length := by
  rw [← length_keysBy]
  exact List.idxOf_lt_length_of_mem (mem_keysBy_iff.2 h)

/-- The element kept at the place of a key has the key. -/
theorem exists_firstsBy_rankBy {l : List α} {k : κ} (h : k ∈ l.map key) :
    ∃ a, (firstsBy key l)[rankBy key l k]? = some a ∧ key a = k := by
  have hlt := rankBy_lt h
  refine ⟨(firstsBy key l)[rankBy key l k], List.getElem?_eq_getElem hlt, ?_⟩
  have hkeys : (keysBy key l)[rankBy key l k]? = some k :=
    List.getElem?_idxOf (mem_keysBy_iff.2 h)
  rw [keysBy, List.getElem?_map, List.getElem?_eq_getElem hlt] at hkeys
  exact Option.some.inj hkeys

/-- A key has the place at which its element is kept. -/
theorem rankBy_eq_of_getElem? {l : List α} {i : ℕ} {a : α} (h : (firstsBy key l)[i]? = some a) :
    rankBy key l (key a) = i := by
  have hkeys : (keysBy key l)[i]? = some (key a) := by
    rw [keysBy, List.getElem?_map, h]
    rfl
  obtain ⟨hi, hget⟩ := List.getElem?_eq_some_iff.1 hkeys
  rw [rankBy, ← hget]
  exact (nodup_keysBy key l).idxOf_getElem i hi

theorem rankBy_inj {l : List α} {k k' : κ} (hk : k ∈ l.map key)
    (h : rankBy key l k = rankBy key l k') : k = k' :=
  List.idxOf_inj (mem_keysBy_iff.2 hk) |>.1 h

/-- Places do not change when elements are added. -/
theorem rankBy_concat_of_mem {l : List α} {a : α} {k : κ} (h : k ∈ l.map key) :
    rankBy key (l ++ [a]) k = rankBy key l k := by
  obtain ⟨b, hb, rfl⟩ := exists_firstsBy_rankBy h
  refine rankBy_eq_of_getElem? ?_
  rw [firstsBy_concat]
  split_ifs
  · exact hb
  · rw [List.getElem?_append_left (rankBy_lt h), hb]

theorem rankBy_concat_self {l : List α} {a : α} (h : key a ∉ l.map key) :
    rankBy key (l ++ [a]) (key a) = (firstsBy key l).length := by
  refine rankBy_eq_of_getElem? ?_
  rw [firstsBy_concat_of_not_mem h, List.getElem?_concat_length]

/-! ### Lookup and groups -/

variable (key) in
/-- The place of a key, if it has been met. -/
def placeBy (l : List α) (k : κ) : Option ℕ :=
  if k ∈ l.map key then some (rankBy key l k) else none

theorem placeBy_concat_of_mem {l : List α} {a : α} (h : key a ∈ l.map key) :
    placeBy key (l ++ [a]) = placeBy key l := by
  funext k
  rw [placeBy, placeBy, List.map_append, List.map_singleton]
  by_cases hk : k ∈ l.map key
  · rw [if_pos (List.mem_append_left _ hk), if_pos hk, rankBy_concat_of_mem hk]
  · rw [if_neg hk, if_neg]
    rw [List.mem_append, List.mem_singleton]
    rintro (hk' | rfl)
    · exact hk hk'
    · exact hk h

theorem placeBy_concat_of_not_mem {l : List α} {a : α} (h : key a ∉ l.map key) :
    placeBy key (l ++ [a]) =
      Function.update (placeBy key l) (key a) (some (firstsBy key l).length) := by
  funext k
  rw [placeBy, List.map_append, List.map_singleton]
  by_cases hk : k = key a
  · rw [hk, if_pos (List.mem_append_right _ List.mem_cons_self), rankBy_concat_self h,
      Function.update_self]
  · rw [Function.update_of_ne hk, placeBy]
    by_cases hmem : k ∈ l.map key
    · rw [if_pos (List.mem_append_left _ hmem), if_pos hmem, rankBy_concat_of_mem hmem]
    · rw [if_neg hmem, if_neg]
      rw [List.mem_append, List.mem_singleton]
      exact fun hk' => hk'.elim hmem hk

theorem placeBy_eq_some_iff {l : List α} {k : κ} {i : ℕ} :
    placeBy key l k = some i ↔ k ∈ l.map key ∧ rankBy key l k = i := by
  rw [placeBy]
  split_ifs with h
  · rw [Option.some.injEq]
    exact ⟨fun hi => ⟨h, hi⟩, fun hi => hi.2⟩
  · exact ⟨nofun, fun hi => absurd hi.1 h⟩

variable (key) in
/-- Each kept element with all elements of its key. -/
def groupsBy (l : List α) : List (α × List α) :=
  (firstsBy key l).map fun a => (a, l.filter fun b => key b = key a)

@[simp] theorem length_groupsBy (l : List α) :
    (groupsBy key l).length = (firstsBy key l).length :=
  List.length_map _

theorem getElem?_groupsBy (l : List α) (i : ℕ) :
    (groupsBy key l)[i]? =
      ((firstsBy key l)[i]?).map fun a => (a, l.filter fun b => key b = key a) :=
  List.getElem?_map

/-- One more element of a key that has been met joins the group of the key. -/
theorem groupsBy_concat_of_mem {l : List α} {a : α} (h : key a ∈ l.map key) :
    groupsBy key (l ++ [a]) =
      (groupsBy key l).modify (rankBy key l (key a)) fun group => (group.1, group.2 ++ [a]) := by
  refine List.ext_getElem? fun i => ?_
  rw [List.getElem?_modify, getElem?_groupsBy, getElem?_groupsBy, firstsBy_concat_of_mem h]
  cases hget : (firstsBy key l)[i]? with
  | none =>
    split_ifs <;> rfl
  | some b =>
    have hrank := rankBy_eq_of_getElem? hget
    rw [Option.map_some, Option.map_some, List.filter_append, List.filter_singleton]
    change _ = some (if rankBy key l (key a) = i then _ else _)
    by_cases hkey : key a = key b
    · rw [if_pos (by rw [hkey, hrank]), decide_eq_true hkey]
      rfl
    · have hne : rankBy key l (key a) ≠ i := fun hi => hkey (rankBy_inj h (hi.trans hrank.symm))
      rw [if_neg hne, decide_eq_false hkey, cond_false, List.append_nil]

/-- One more element of a new key makes a group. -/
theorem groupsBy_concat_of_not_mem {l : List α} {a : α} (h : key a ∉ l.map key) :
    groupsBy key (l ++ [a]) = groupsBy key l ++ [(a, [a])] := by
  have hother : l.filter (fun b => key b = key a) = [] := by
    rw [List.filter_eq_nil_iff]
    intro b hb hkey
    exact h (List.mem_map.2 ⟨b, hb, of_decide_eq_true hkey⟩)
  rw [groupsBy, firstsBy_concat_of_not_mem h, List.map_append, List.map_singleton,
    List.filter_append, hother, List.filter_singleton, decide_eq_true rfl, groupsBy]
  refine congrArg (· ++ _) (List.map_congr_left fun b hb => ?_)
  have hne : key a ≠ key b := fun hkey =>
    h (List.mem_map.2 ⟨b, mem_of_mem_firstsBy hb, hkey.symm⟩)
  rw [List.filter_append, List.filter_singleton, decide_eq_false hne, cond_false, List.append_nil]

/-- Elements sorted into the classes of distinct keys are the same elements. -/
private theorem perm_flatMap_filter {ks : List κ} (hks : ks.Nodup) {l : List α}
    (h : ∀ a ∈ l, key a ∈ ks) : (ks.flatMap fun k => l.filter fun a => key a = k).Perm l := by
  induction ks generalizing l with
  | nil =>
    have hl : l = [] := List.eq_nil_iff_forall_not_mem.2 fun a ha => List.not_mem_nil (h a ha)
    rw [hl]
    exact List.Perm.refl _
  | cons k ks ih =>
    rw [List.nodup_cons] at hks
    have hrest : (ks.flatMap fun k' => l.filter fun a => key a = k') =
        ks.flatMap fun k' => (l.filter fun a => ¬ key a = k).filter fun a => key a = k' := by
      refine List.flatMap_congr fun k' hk' => ?_
      rw [List.filter_filter]
      refine List.filter_congr fun a _ => ?_
      by_cases ha : key a = k'
      · have hne : key a ≠ k := fun hk => hks.1 (hk ▸ ha ▸ hk')
        simp only [ha, decide_true, Bool.true_and]
        simpa [ha] using hne
      · simp only [ha, decide_false, Bool.false_and]
    have hperm := ih hks.2 (l := l.filter fun a => ¬ key a = k) fun a ha => by
      have hmem := List.mem_filter.1 ha
      exact (List.mem_cons.1 (h a hmem.1)).resolve_left (of_decide_eq_true hmem.2)
    rw [List.flatMap_cons, hrest]
    refine (hperm.append_left _).trans ?_
    simpa only [decide_not] using List.filter_append_perm (fun a => decide (key a = k)) l

variable (key) in
/-- The groups hold every element exactly once. -/
theorem perm_flatMap_groupsBy (l : List α) : ((groupsBy key l).flatMap Prod.snd).Perm l := by
  have h := perm_flatMap_filter (nodup_keysBy key l) (l := l) fun a ha =>
    mem_keysBy_iff.2 (List.mem_map_of_mem ha)
  rw [keysBy, List.flatMap_map] at h
  rwa [groupsBy, List.flatMap_map]

variable (key) in
/-- A sum over the elements is a sum over the groups. -/
theorem sum_groupsBy {M : Type*} [AddCommMonoid M] (f : α → M) (l : List α) :
    ((groupsBy key l).map fun group => (group.2.map f).sum).sum = (l.map f).sum := by
  rw [← ((perm_flatMap_groupsBy key l).map f).sum_eq, List.map_flatMap, List.flatMap_def,
    List.sum_flatten, List.map_map]
  rfl

end NNIS
