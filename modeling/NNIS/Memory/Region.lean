import Mathlib.Data.List.Basic
import Mathlib.Algebra.Group.Nat.Defs

/-!
# Regions of a buffer

A buffer is the list of its elements. A region is given by its first index and its size; writing a
region leaves every disjoint region as it was, and a region inside the written one is read from what
was written. A write that does not fit the buffer changes nothing.

## Main definitions

* `region` — the elements of a region.
* `writeRegion` — a buffer with a region replaced.

## Main results

* `region_writeRegion_of_within`, `region_writeRegion_of_before`, `region_writeRegion_of_after`.
* `getElem?_writeRegion`, `writeRegion_region_writeRegion` — a written region element by element,
  and a write through a copy of a wider region.
* `region_flatMap_range`, `flatMap_region` — regions made of blocks.
-/

set_option autoImplicit false

namespace NNIS

universe u

variable {V : Type u}

/-- The `size` elements from index `first` on. -/
def region (buffer : List V) (first size : ℕ) : List V := (buffer.drop first).take size

/-- The buffer with the elements from index `first` on replaced by those of a list. -/
def writeRegion (buffer : List V) (first : ℕ) (source : List V) : List V :=
  if first + source.length ≤ buffer.length then
    buffer.take first ++ source ++ buffer.drop (first + source.length)
  else buffer

theorem length_region {buffer : List V} {first size : ℕ} (h : first + size ≤ buffer.length) :
    (region buffer first size).length = size := by
  rw [region, List.length_take, List.length_drop]
  omega

@[simp] theorem length_writeRegion (buffer : List V) (first : ℕ) (source : List V) :
    (writeRegion buffer first source).length = buffer.length := by
  unfold writeRegion
  split
  · rw [List.length_append, List.length_append, List.length_take, List.length_drop]
    omega
  · rfl

/-- A region of a region. -/
theorem region_region (buffer : List V) (first size : ℕ) {first' size' : ℕ}
    (h : first' + size' ≤ size) :
    region (region buffer first size) first' size' = region buffer (first + first') size' := by
  rw [region, region, region, List.drop_take, List.drop_drop, List.take_take,
    Nat.min_eq_left (by omega)]

/-- The whole buffer is one region. -/
theorem region_zero (buffer : List V) : region buffer 0 buffer.length = buffer := by
  rw [region, List.drop_zero, List.take_length]

/-- Adjacent regions make one region. -/
theorem region_append (buffer : List V) (first size size' : ℕ) :
    region buffer first size ++ region buffer (first + size) size' =
      region buffer first (size + size') := by
  rw [region, region, region, ← List.drop_drop, ← List.take_add]

/-- A region inside the written one is read from what was written. -/
theorem region_writeRegion_of_within {buffer source : List V} {first first' size : ℕ}
    (hfit : first + source.length ≤ buffer.length) (hlow : first ≤ first')
    (hhigh : first' + size ≤ first + source.length) :
    region (writeRegion buffer first source) first' size =
      region source (first' - first) size := by
  have hlen : (buffer.take first).length = first := by
    rw [List.length_take]
    omega
  have hdrop : (buffer.take first ++ source).drop first' = source.drop (first' - first) := by
    rw [List.drop_append, hlen, List.drop_of_length_le (by omega), List.nil_append]
  have hlen' : first' ≤ (buffer.take first ++ source).length := by
    rw [List.length_append, hlen]
    omega
  rw [region, writeRegion, if_pos hfit, List.drop_append_of_le_length hlen', hdrop,
    List.take_append_of_le_length (by rw [List.length_drop]; omega), region]

/-- A region before the written one is unchanged. -/
theorem region_writeRegion_of_before {buffer source : List V} {first first' size : ℕ}
    (h : first' + size ≤ first) :
    region (writeRegion buffer first source) first' size = region buffer first' size := by
  unfold writeRegion
  split
  case isTrue hfit =>
    have hlen : (buffer.take first).length = first := by
      rw [List.length_take]
      omega
    rw [region, region, List.append_assoc, List.drop_append_of_le_length (by omega),
      List.take_append_of_le_length (by rw [List.length_drop]; omega), List.drop_take,
      List.take_take, Nat.min_eq_left (by omega)]
  case isFalse => rfl

/-- A region after the written one is unchanged. -/
theorem region_writeRegion_of_after {buffer source : List V} {first first' size : ℕ}
    (h : first + source.length ≤ first') :
    region (writeRegion buffer first source) first' size = region buffer first' size := by
  unfold writeRegion
  split
  case isTrue hfit =>
    have hlen : (buffer.take first ++ source).length = first + source.length := by
      rw [List.length_append, List.length_take]
      omega
    rw [region, region, List.drop_append, hlen, List.drop_of_length_le (by omega),
      List.nil_append, List.drop_drop, Nat.add_sub_cancel' h]
  case isFalse => rfl

/-! ### Blocks -/

theorem length_flatMap_range {f : ℕ → List V} {size n : ℕ}
    (hlen : ∀ i < n, (f i).length = size) : ((List.range n).flatMap f).length = n * size := by
  induction n with
  | zero => rw [List.range_zero, List.flatMap_nil, List.length_nil, Nat.zero_mul]
  | succ n ih =>
    rw [List.range_succ, List.flatMap_append, List.length_append, List.flatMap_singleton,
      ih fun i hi => hlen i (by omega), hlen n (Nat.lt_succ_self n), Nat.succ_mul]

/-- A block of equally long blocks. -/
theorem region_flatMap_range {f : ℕ → List V} {size n i : ℕ}
    (hlen : ∀ j < n, (f j).length = size) (hi : i < n) :
    region ((List.range n).flatMap f) (i * size) size = f i := by
  induction n with
  | zero => exact absurd hi (Nat.not_lt_zero i)
  | succ n ih =>
    have hlen' : ∀ j < n, (f j).length = size := fun j hj => hlen j (by omega)
    have hblocks := length_flatMap_range hlen'
    rw [List.range_succ, List.flatMap_append, List.flatMap_singleton]
    rcases Nat.lt_or_eq_of_le (Nat.le_of_lt_succ hi) with hlt | rfl
    · have hfit : i * size + size ≤ n * size := by
        rw [← Nat.succ_mul]
        exact Nat.mul_le_mul_right _ hlt
      rw [← ih hlen' hlt, region, region, List.drop_append_of_le_length (by omega),
        List.take_append_of_le_length (by rw [List.length_drop]; omega)]
    · rw [region, ← hblocks, List.drop_left, ← hlen i hi, List.take_length]

/-- Adjacent regions of one size make one region. -/
theorem flatMap_region (buffer : List V) (first size n : ℕ) :
    ((List.range n).flatMap fun i => region buffer (first + i * size) size) =
      region buffer first (n * size) := by
  induction n with
  | zero => simp only [List.range_zero, List.flatMap_nil, Nat.zero_mul, region, List.take_zero]
  | succ n ih =>
    rw [List.range_succ, List.flatMap_append, ih, List.flatMap_singleton, Nat.succ_mul,
      region_append]

/-- A block of a buffer after one of its blocks is written. -/
theorem region_writeRegion_block {buffer block : List V} {size n i j : ℕ}
    (hblock : block.length = size) (hlength : buffer.length = n * size) (hj : j < n) :
    region (writeRegion buffer (j * size) block) (i * size) size =
      if i = j then block else region buffer (i * size) size := by
  have hfit : j * size + size ≤ n * size := by
    rw [← Nat.succ_mul]
    exact Nat.mul_le_mul_right _ hj
  rcases Nat.lt_trichotomy i j with hlt | rfl | hgt
  · have hbefore : i * size + size ≤ j * size := by
      rw [← Nat.succ_mul]
      exact Nat.mul_le_mul_right _ hlt
    rw [if_neg (Nat.ne_of_lt hlt), region_writeRegion_of_before hbefore]
  · rw [if_pos rfl, region_writeRegion_of_within (by omega) (Nat.le_refl _) (by omega),
      Nat.sub_self, ← hblock, region_zero]
  · have hafter : j * size + size ≤ i * size := by
      rw [← Nat.succ_mul]
      exact Nat.mul_le_mul_right _ hgt
    rw [if_neg (Nat.ne_of_gt hgt), region_writeRegion_of_after (by omega)]

theorem getElem?_region (buffer : List V) {first size i : ℕ} (h : i < size) :
    (region buffer first size)[i]? = buffer[first + i]? := by
  rw [region, List.getElem?_take_of_lt h, List.getElem?_drop]

/-- The elements of a buffer with a region written. -/
theorem getElem?_writeRegion {buffer source : List V} {first : ℕ}
    (hfit : first + source.length ≤ buffer.length) (i : ℕ) :
    (writeRegion buffer first source)[i]? =
      if first ≤ i ∧ i < first + source.length then source[i - first]? else buffer[i]? := by
  have hlen : (buffer.take first).length = first := by
    rw [List.length_take]
    omega
  rw [writeRegion, if_pos hfit, List.append_assoc]
  rcases Nat.lt_or_ge i first with hlow | hlow
  · rw [List.getElem?_append_left (by omega), if_neg (by omega), List.getElem?_take_of_lt hlow]
  · rw [List.getElem?_append_right (by omega), hlen]
    rcases Nat.lt_or_ge i (first + source.length) with hhigh | hhigh
    · rw [List.getElem?_append_left (by omega), if_pos ⟨hlow, hhigh⟩]
    · rw [List.getElem?_append_right (by omega), if_neg (by omega), List.getElem?_drop]
      exact congrArg (buffer[·]?) (by omega)

/-- Writing a part of a copy of a region, and then the copy, writes the part. -/
theorem writeRegion_region_writeRegion {buffer source : List V} {first size offset : ℕ}
    (hfit : first + size ≤ buffer.length) (hoffset : offset + source.length ≤ size) :
    writeRegion buffer first (writeRegion (region buffer first size) offset source) =
      writeRegion buffer (first + offset) source := by
  have hregion := length_region hfit
  have hinner : offset + source.length ≤ (region buffer first size).length := by omega
  have hlen : (writeRegion (region buffer first size) offset source).length = size := by
    rw [length_writeRegion, hregion]
  have houter : first + (writeRegion (region buffer first size) offset source).length ≤
      buffer.length := by omega
  refine List.ext_getElem? fun i => ?_
  have htarget : first + offset + source.length ≤ buffer.length := by omega
  rw [getElem?_writeRegion houter, getElem?_writeRegion hinner, getElem?_writeRegion htarget, hlen]
  rcases Nat.lt_or_ge i first with hlow | hlow
  · rw [if_neg (by omega), if_neg (by omega)]
  rcases Nat.lt_or_ge i (first + size) with hhigh | hhigh
  · rw [if_pos ⟨hlow, hhigh⟩, getElem?_region _ (by omega), Nat.add_sub_cancel' hlow]
    by_cases hwritten : first + offset ≤ i ∧ i < first + offset + source.length
    · rw [if_pos (by omega), if_pos hwritten, Nat.sub_sub]
    · rw [if_neg (by omega), if_neg hwritten]
  · rw [if_neg (by omega), if_neg (by omega)]

/-- A write of the whole buffer. -/
theorem writeRegion_zero {buffer source : List V} (h : source.length = buffer.length) :
    writeRegion buffer 0 source = source := by
  rw [writeRegion, if_pos (by omega), List.take_zero, List.nil_append,
    List.drop_of_length_le (by omega), List.append_nil]

/-- A prefix that holds the written region. -/
theorem take_writeRegion {buffer source : List V} {first n : ℕ} (hn : n ≤ buffer.length)
    (hfit : first + source.length ≤ n) :
    (writeRegion buffer first source).take n = writeRegion (buffer.take n) first source := by
  have hlen : (buffer.take n).length = n := List.length_take_of_le hn
  refine List.ext_getElem? fun i => ?_
  rw [getElem?_writeRegion (by omega)]
  rcases Nat.lt_or_ge i n with hi | hi
  · rw [List.getElem?_take_of_lt hi, List.getElem?_take_of_lt hi,
      getElem?_writeRegion (by omega)]
  · rw [List.getElem?_take_eq_none hi, if_neg (by omega), List.getElem?_take_eq_none hi]

/-- What lies behind the written region. -/
theorem drop_writeRegion {buffer source : List V} {first n : ℕ} (hn : n ≤ buffer.length)
    (hfit : first + source.length ≤ n) :
    (writeRegion buffer first source).drop n = buffer.drop n := by
  refine List.ext_getElem? fun i => ?_
  rw [List.getElem?_drop, List.getElem?_drop, getElem?_writeRegion (by omega),
    if_neg (by omega)]

/-- A region of a prefix. -/
theorem region_take (buffer : List V) {first size n : ℕ} (h : first + size ≤ n) :
    region (buffer.take n) first size = region buffer first size := by
  rw [region, region, List.drop_take, List.take_take, Nat.min_eq_left (by omega)]

end NNIS
