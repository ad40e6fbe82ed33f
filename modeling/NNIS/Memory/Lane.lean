import Mathlib.Data.List.Induction
import Mathlib.Data.Nat.Bitwise
import Mathlib.Data.Nat.Notation
import Mathlib.Tactic.Ring

/-!
# Codes of a fixed width packed in bytes

A list of bytes read as a sequence of codes of `width` bits, `lanes` of them in each byte, the
lowest bits first. A code is written by joining it, shifted, to its byte, which stores it when the
place was empty.

## Main definitions

* `lane`, `orLane` — one byte.
* `laneAt`, `packLanes` — the code at a position, and codes joined one by one.
* `SameUnusedLanes` — two lists of bytes agree beyond a number of codes.

## Main results

* `lane_orLane` — what joining a code to a byte changes.
* `laneAt_modify_orLane` — what joining a code to its byte changes.
* `laneAt_packLanes` — codes joined one by one to empty bytes are read back.
* `eq_iff_laneAt` — lists of bytes of one length are equal when their codes are.
-/

set_option autoImplicit false

namespace NNIS

/-- The code in a lane of a byte. -/
def lane (width index : ℕ) (byte : UInt8) : UInt8 :=
  (byte >>> UInt8.ofNat (index * width)) &&& UInt8.ofNat (2 ^ width - 1)

/-- A byte with a code joined to one of its lanes. -/
def orLane (width index : ℕ) (code byte : UInt8) : UInt8 :=
  byte ||| (code <<< UInt8.ofNat (index * width))

/-- The code at a position. -/
def laneAt (width lanes : ℕ) (codes : List UInt8) (position : ℕ) : UInt8 :=
  lane width (position % lanes) (codes.getD (position / lanes) 0)

/-! ### One byte -/

section Byte

variable {width index index' : ℕ}

theorem toNat_lane (hfit : (index + 1) * width ≤ 8) (hwidth : 0 < width) (byte : UInt8) :
    (lane width index byte).toNat = byte.toNat / 2 ^ (index * width) % 2 ^ width := by
  have hsplit : (index + 1) * width = index * width + width := Nat.succ_mul _ _
  have hshift : index * width < 8 := by omega
  have hpow : 2 ^ width ≤ 2 ^ 8 := Nat.pow_le_pow_right Nat.two_pos (by omega)
  rw [lane, UInt8.toNat_and, UInt8.toNat_shiftRight, UInt8.toNat_ofNat', UInt8.toNat_ofNat',
    Nat.mod_eq_of_lt (by omega : index * width < 2 ^ 8), Nat.mod_eq_of_lt hshift,
    Nat.mod_eq_of_lt (by omega : 2 ^ width - 1 < 2 ^ 8), Nat.and_two_pow_sub_one_eq_mod,
    Nat.shiftRight_eq_div_pow]

theorem lane_lt (hfit : (index + 1) * width ≤ 8) (hwidth : 0 < width) (byte : UInt8) :
    (lane width index byte).toNat < 2 ^ width := by
  rw [toNat_lane hfit hwidth]
  exact Nat.mod_lt _ (Nat.two_pow_pos width)

private theorem testBit_lane (hfit : (index + 1) * width ≤ 8) (hwidth : 0 < width) (byte : UInt8)
    (i : ℕ) :
    (lane width index byte).toNat.testBit i =
      (decide (i < width) && byte.toNat.testBit (index * width + i)) := by
  rw [toNat_lane hfit hwidth, Nat.testBit_mod_two_pow, Nat.testBit_div_two_pow, Nat.add_comm]

/-- A byte is determined by its codes. -/
theorem eq_of_lane {lanes : ℕ} (hbyte : lanes * width = 8) {byte byte' : UInt8}
    (h : ∀ index < lanes, lane width index byte = lane width index byte') : byte = byte' := by
  have hwidth : 0 < width := Nat.pos_of_ne_zero fun hzero => by simp [hzero] at hbyte
  refine UInt8.toNat_inj.1 (Nat.eq_of_testBit_eq fun i => ?_)
  rcases Nat.lt_or_ge i 8 with hi | hi
  · -- The bit stands at the remainder of its position in the code of the quotient.
    have hindex : i / width < lanes := by
      rw [Nat.div_lt_iff_lt_mul hwidth, hbyte]
      exact hi
    have hfit : (i / width + 1) * width ≤ 8 := hbyte ▸ Nat.mul_le_mul_right width hindex
    have hbit := congrArg (fun code => code.toNat.testBit (i % width)) (h _ hindex)
    simp only [testBit_lane hfit hwidth, Nat.mod_lt i hwidth, decide_true, Bool.true_and] at hbit
    rwa [Nat.mul_comm, Nat.div_add_mod] at hbit
  · have hlow : ∀ b : UInt8, b.toNat.testBit i = false := fun b =>
      Nat.testBit_eq_false_of_lt (b.toNat_lt.trans_le (Nat.pow_le_pow_right Nat.two_pos hi))
    rw [hlow, hlow]

@[simp] theorem lane_zero (width index : ℕ) : lane width index 0 = 0 := by
  rw [lane, UInt8.zero_shiftRight, UInt8.zero_and]

/-- The bits of a byte to which a code is joined. -/
private theorem testBit_orLane (hshift : index * width < 8) (code byte : UInt8) {i : ℕ}
    (hi : i < 8) :
    (orLane width index code byte).toNat.testBit i =
      (byte.toNat.testBit i || (decide (index * width ≤ i) &&
        code.toNat.testBit (i - index * width))) := by
  rw [orLane, UInt8.toNat_or, UInt8.toNat_shiftLeft, UInt8.toNat_ofNat',
    Nat.mod_eq_of_lt (by omega : index * width < 2 ^ 8), Nat.mod_eq_of_lt hshift,
    Nat.testBit_or, Nat.testBit_mod_two_pow, Nat.testBit_shiftLeft, decide_eq_true hi,
    Bool.true_and]

/-- Joining a code to a lane joins it to the code of that lane and changes no other lane. -/
theorem lane_orLane (hfit : (index + 1) * width ≤ 8) (hfit' : (index' + 1) * width ≤ 8)
    (hwidth : 0 < width) {code : UInt8} (hcode : code.toNat < 2 ^ width) (byte : UInt8) :
    lane width index' (orLane width index code byte) =
      if index' = index then lane width index byte ||| code else lane width index' byte := by
  have hsplit : (index + 1) * width = index * width + width := Nat.succ_mul _ _
  have hsplit' : (index' + 1) * width = index' * width + width := Nat.succ_mul _ _
  refine UInt8.toNat_inj.1 (Nat.eq_of_testBit_eq fun i => ?_)
  rw [testBit_lane hfit' hwidth]
  rcases Nat.lt_or_ge i width with hi | hi
  · rw [testBit_orLane (by omega) _ _ (by omega)]
    by_cases heq : index' = index
    · subst heq
      rw [if_pos rfl, UInt8.toNat_or, Nat.testBit_or, testBit_lane hfit hwidth,
        decide_eq_true (Nat.le_add_right _ i), Nat.add_sub_cancel_left]
      simp only [hi, decide_true, Bool.true_and]
    · rw [if_neg heq, testBit_lane hfit' hwidth]
      have hother : (decide (index * width ≤ index' * width + i) &&
          code.toNat.testBit (index' * width + i - index * width)) = false := by
        rcases Nat.lt_or_gt_of_ne heq with hlt | hgt
        · have hle : (index' + 1) * width ≤ index * width := Nat.mul_le_mul_right _ hlt
          rw [decide_eq_false (by omega), Bool.false_and]
        · have hle : (index + 1) * width ≤ index' * width := Nat.mul_le_mul_right _ hgt
          rw [Nat.testBit_eq_false_of_lt, Bool.and_false]
          exact hcode.trans_le (Nat.pow_le_pow_right Nat.two_pos (by omega))
      rw [hother, Bool.or_false]
  · have hlow : ∀ n : ℕ, n < 2 ^ width → n.testBit i = false := fun n hn =>
      Nat.testBit_eq_false_of_lt (hn.trans_le (Nat.pow_le_pow_right Nat.two_pos hi))
    rw [decide_eq_false (by omega), Bool.false_and]
    split_ifs
    · rw [UInt8.toNat_or, Nat.testBit_or, hlow _ (lane_lt hfit hwidth byte), hlow _ hcode]
      rfl
    · rw [hlow _ (lane_lt hfit' hwidth byte)]

end Byte

/-! ### A list of bytes -/

section Bytes

variable {width lanes : ℕ}

@[simp] theorem laneAt_replicate_zero (n position : ℕ) :
    laneAt width lanes (List.replicate n 0) position = 0 := by
  have hzero : (List.replicate n (0 : UInt8)).getD (position / lanes) 0 = 0 := by
    rw [List.getD_eq_getElem?_getD, List.getElem?_replicate]
    split <;> rfl
  rw [laneAt, hzero, lane_zero]

private theorem lane_fits (hbyte : lanes * width ≤ 8) (hlanes : 0 < lanes) (position : ℕ) :
    (position % lanes + 1) * width ≤ 8 :=
  (Nat.mul_le_mul_right width (Nat.mod_lt position hlanes)).trans hbyte

theorem laneAt_lt (hbyte : lanes * width ≤ 8) (hlanes : 0 < lanes) (hwidth : 0 < width)
    (codes : List UInt8) (position : ℕ) :
    (laneAt width lanes codes position).toNat < 2 ^ width :=
  lane_lt (lane_fits hbyte hlanes position) hwidth _

/-- Lists of bytes of one length are equal when their codes are. -/
theorem eq_iff_laneAt (hbyte : lanes * width = 8) {codes codes' : List UInt8}
    (hlength : codes.length = codes'.length) :
    codes = codes' ↔ ∀ position < lanes * codes.length,
      laneAt width lanes codes position = laneAt width lanes codes' position := by
  have hlanes : 0 < lanes := Nat.pos_of_ne_zero fun hzero => by simp [hzero] at hbyte
  refine ⟨fun h _ _ => by rw [h], fun h => List.ext_getElem hlength fun i hi hi' => ?_⟩
  refine eq_of_lane hbyte fun index hindex => ?_
  have hposition : lanes * i + index < lanes * codes.length :=
    calc lanes * i + index < lanes * i + lanes := Nat.add_lt_add_left hindex _
      _ = lanes * (i + 1) := (Nat.mul_succ lanes i).symm
      _ ≤ lanes * codes.length := Nat.mul_le_mul_left lanes hi
  have hlane := h _ hposition
  rwa [laneAt, laneAt, Nat.mul_add_mod, Nat.mod_eq_of_lt hindex, Nat.mul_add_div hlanes,
    Nat.div_eq_of_lt hindex, Nat.add_zero, List.getD_eq_getElem _ _ hi,
    List.getD_eq_getElem _ _ hi'] at hlane

/-- The codes of two lists of bytes agree from a position on. -/
def SameUnusedLanes (width lanes count : ℕ) (codes codes' : List UInt8) : Prop :=
  ∀ position < lanes * codes.length, count ≤ position →
    laneAt width lanes codes position = laneAt width lanes codes' position

instance (width lanes count : ℕ) (codes codes' : List UInt8) :
    Decidable (SameUnusedLanes width lanes count codes codes') :=
  inferInstanceAs (Decidable (∀ position < lanes * codes.length, count ≤ position →
    laneAt width lanes codes position = laneAt width lanes codes' position))

/-- Lists of bytes of one length are equal when the codes before and from a position are. -/
theorem eq_iff_sameUnusedLanes (hbyte : lanes * width = 8) {count : ℕ} {codes codes' : List UInt8}
    (hlength : codes.length = codes'.length) (hcount : count ≤ lanes * codes.length) :
    codes = codes' ↔ SameUnusedLanes width lanes count codes codes' ∧
      ∀ position < count,
        laneAt width lanes codes position = laneAt width lanes codes' position := by
  rw [eq_iff_laneAt hbyte hlength]
  refine ⟨fun h => ⟨fun position hlt _ => h position hlt, fun position hlt =>
    h position (hlt.trans_le hcount)⟩, fun h position hlt => ?_⟩
  rcases Nat.lt_or_ge position count with hused | hunused
  · exact h.2 position hused
  · exact h.1 position hlt hunused

/-- Joining a code to its byte joins it to the code at its position and changes no other code. -/
theorem laneAt_modify_orLane (hbyte : lanes * width ≤ 8) (hlanes : 0 < lanes)
    (hwidth : 0 < width) {codes : List UInt8} {position position' : ℕ} {code : UInt8}
    (hlt : position / lanes < codes.length) (hcode : code.toNat < 2 ^ width) :
    laneAt width lanes
        (codes.modify (position / lanes) (orLane width (position % lanes) code)) position' =
      if position' = position then laneAt width lanes codes position ||| code
      else laneAt width lanes codes position' := by
  have hfit := lane_fits hbyte hlanes
  have hget : (codes.modify (position / lanes) (orLane width (position % lanes) code)).getD
      (position' / lanes) 0 =
      if position / lanes = position' / lanes then
        orLane width (position % lanes) code (codes.getD (position / lanes) 0)
      else codes.getD (position' / lanes) 0 := by
    rw [List.getD_eq_getElem?_getD, List.getElem?_modify]
    split_ifs with h
    · rw [← h, List.getElem?_eq_getElem hlt, List.getD_eq_getElem?_getD,
        List.getElem?_eq_getElem hlt]
      rfl
    · rw [id_map', List.getD_eq_getElem?_getD]
  rw [laneAt, hget]
  by_cases hdiv : position / lanes = position' / lanes
  · rw [if_pos hdiv, lane_orLane (hfit position) (hfit position') hwidth hcode]
    by_cases hmod : position' % lanes = position % lanes
    · have heq : position' = position := by
        rw [← Nat.div_add_mod position' lanes, ← Nat.div_add_mod position lanes, hdiv, hmod]
      rw [if_pos hmod, if_pos heq, laneAt]
    · rw [if_neg hmod, if_neg (fun h => hmod (by rw [h])), laneAt, hdiv]
  · rw [if_neg hdiv, if_neg (fun h => hdiv (by rw [h])), laneAt]

/-- Joining no code to a byte changes nothing. -/
@[simp] theorem orLane_zero (width index : ℕ) : orLane width index 0 = id := by
  funext byte
  rw [orLane, UInt8.zero_shiftLeft, UInt8.or_zero, id]

theorem orLane_one (index : ℕ) :
    orLane 1 index 1 = fun byte => byte ||| 1 <<< UInt8.ofNat index := by
  funext byte
  rw [orLane, Nat.mul_one]

/-- Codes joined one by one to empty bytes. -/
def packLanes (width lanes size : ℕ) (codes : List UInt8) : List UInt8 :=
  codes.zipIdx.foldl (fun packed (code, index) =>
    packed.modify (index / lanes) (orLane width (index % lanes) code)) (List.replicate size 0)

theorem packLanes_concat (width lanes size : ℕ) (codes : List UInt8) (code : UInt8) :
    packLanes width lanes size (codes ++ [code]) =
      (packLanes width lanes size codes).modify (codes.length / lanes)
        (orLane width (codes.length % lanes) code) := by
  rw [packLanes, List.zipIdx_append, List.foldl_append, Nat.zero_add]
  rfl

/-- Codes joined one by one to empty bytes are read back, and nothing follows them. -/
theorem laneAt_packLanes (width lanes size : ℕ) (hbyte : lanes * width ≤ 8) (hlanes : 0 < lanes)
    (hwidth : 0 < width) {codes : List UInt8} (hcode : ∀ code ∈ codes, code.toNat < 2 ^ width)
    (hsize : codes.length ≤ size * lanes) :
    (packLanes width lanes size codes).length = size ∧
      ∀ position, laneAt width lanes (packLanes width lanes size codes) position =
        codes.getD position 0 := by
  induction codes using List.reverseRecOn with
  | nil => exact ⟨List.length_replicate, fun position => laneAt_replicate_zero ..⟩
  | append_singleton codes code ih =>
    rw [List.length_append, List.length_singleton] at hsize
    obtain ⟨hlength, hread⟩ := ih (fun c hc => hcode c (List.mem_append_left _ hc)) (by omega)
    have hlast : codes.length / lanes < size := (Nat.div_lt_iff_lt_mul hlanes).2 (by omega)
    rw [packLanes_concat]
    refine ⟨by rw [List.length_modify, hlength], fun position => ?_⟩
    rw [laneAt_modify_orLane hbyte hlanes hwidth (by rw [hlength]; exact hlast)
      (hcode code (List.mem_append_right _ List.mem_cons_self)), hread, hread]
    simp only [List.getD_eq_getElem?_getD]
    rcases Nat.lt_trichotomy position codes.length with hlt | heq | hgt
    · rw [if_neg (Nat.ne_of_lt hlt), List.getElem?_append_left hlt]
    · rw [if_pos heq, heq, List.getElem?_concat_length, List.getElem?_eq_none (Nat.le_refl _)]
      exact UInt8.zero_or
    · rw [if_neg (Nat.ne_of_gt hgt), List.getElem?_eq_none (Nat.le_of_lt hgt),
        List.getElem?_eq_none (by rw [List.length_append, List.length_singleton]; exact hgt)]

end Bytes

end NNIS
