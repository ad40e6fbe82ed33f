import Mathlib.Data.Nat.Notation
import NNIS.Memory.Region

/-!
# Four-bit codes packed in bytes

A list of bytes read as a sequence of four-bit codes, the low half of each byte first. A code is
written by joining it, shifted, to its byte, which stores it when the place was empty.

## Main definitions

* `nibbleAt`, `orNibble`.

## Main results

* `nibbleAt_orNibble` — what joining a code to its byte changes.
* `nibbleAt_region`, `nibbleAt_writeRegion_of_within`, `nibbleAt_writeRegion_of_outside` — the
  codes of a range of bytes.
-/

set_option autoImplicit false

namespace NNIS

/-- The code in the low or the high half of a byte. -/
def half (byte : UInt8) (high : Bool) : UInt8 := if high then byte >>> 4 else byte &&& 0x0F

/-- A byte with a code joined to its low or its high half. -/
def orHalf (byte : UInt8) (high : Bool) (code : UInt8) : UInt8 :=
  byte ||| (code <<< (if high then 4 else 0))

/-- The code at a position. -/
def nibbleAt (codes : List UInt8) (position : ℕ) : UInt8 :=
  half (codes.getD (position / 2) 0) (position % 2 != 0)

/-- Join a code to the byte of its position. -/
def orNibble (position : ℕ) (code byte : UInt8) : UInt8 :=
  orHalf byte (position % 2 != 0) code

/-! ### One byte -/

private theorem or_and_right (a b c : UInt8) : (a ||| b) &&& c = a &&& c ||| b &&& c :=
  UInt8.toBitVec_inj.1 (by simp only [UInt8.toBitVec_and, UInt8.toBitVec_or,
    BitVec.and_or_distrib_right])

theorem half_orHalf_self (byte : UInt8) (high : Bool) {code : UInt8} (h : code < 16) :
    half (orHalf byte high code) high = half byte high ||| code := by
  have hlow : ∀ n : Fin 16, (UInt8.ofNat n <<< 0) &&& 0x0F = UInt8.ofNat n := by decide
  have hhigh : ∀ n : Fin 16, (UInt8.ofNat n <<< 4) >>> 4 = UInt8.ofNat n := by decide
  have hcode : code = UInt8.ofNat (⟨code.toNat, UInt8.lt_iff_toNat_lt.1 h⟩ : Fin 16) :=
    UInt8.ofNat_toNat.symm
  cases high with
  | false =>
    simp only [half, orHalf, Bool.false_eq_true, ↓reduceIte, or_and_right]
    rw [hcode, hlow]
  | true =>
    simp only [half, orHalf, ↓reduceIte, UInt8.shiftRight_or]
    rw [hcode, hhigh]

theorem half_orHalf_of_ne (byte : UInt8) {high high' : Bool} (hne : high' ≠ high)
    {code : UInt8} (h : code < 16) :
    half (orHalf byte high code) high' = half byte high' := by
  have hlow : ∀ n : Fin 16, (UInt8.ofNat n <<< 0) >>> 4 = 0 := by decide
  have hhigh : ∀ n : Fin 16, (UInt8.ofNat n <<< 4) &&& 0x0F = 0 := by decide
  have hcode : code = UInt8.ofNat (⟨code.toNat, UInt8.lt_iff_toNat_lt.1 h⟩ : Fin 16) :=
    UInt8.ofNat_toNat.symm
  cases high with
  | false =>
    obtain rfl : high' = true := by simpa only [ne_eq, Bool.not_eq_false] using hne
    simp only [half, orHalf, Bool.false_eq_true, ↓reduceIte, UInt8.shiftRight_or]
    rw [hcode, hlow, UInt8.or_zero]
  | true =>
    obtain rfl : high' = false := by simpa only [ne_eq, Bool.not_eq_true] using hne
    simp only [half, orHalf, Bool.false_eq_true, ↓reduceIte, or_and_right]
    rw [hcode, hhigh, UInt8.or_zero]

/-! ### A list of bytes -/

@[simp] theorem nibbleAt_replicate_zero (n position : ℕ) :
    nibbleAt (List.replicate n 0) position = 0 := by
  have hzero : (List.replicate n (0 : UInt8)).getD (position / 2) 0 = 0 := by
    rw [List.getD_eq_getElem?_getD, List.getElem?_replicate]
    split <;> rfl
  rw [nibbleAt, hzero]
  cases position % 2 != 0 <;> rfl

/-- Joining a code to an empty place stores it there and changes no other code. -/
theorem nibbleAt_orNibble {codes : List UInt8} {position position' : ℕ} {code : UInt8}
    (hlt : position / 2 < codes.length) (hcode : code < 16)
    (hempty : nibbleAt codes position = 0) :
    nibbleAt (codes.modify (position / 2) (orNibble position code)) position' =
      if position' = position then code else nibbleAt codes position' := by
  have hget : (codes.modify (position / 2) (orNibble position code)).getD (position' / 2) 0 =
      if position / 2 = position' / 2 then orNibble position code (codes.getD (position / 2) 0)
      else codes.getD (position' / 2) 0 := by
    rw [List.getD_eq_getElem?_getD, List.getElem?_modify]
    split
    case isTrue h =>
      rw [← h, List.getElem?_eq_getElem hlt, List.getD_eq_getElem?_getD,
        List.getElem?_eq_getElem hlt]
      rfl
    case isFalse h =>
      rw [List.getD_eq_getElem?_getD]
      cases codes[position' / 2]? <;> rfl
  by_cases hbyte : position / 2 = position' / 2
  · rw [nibbleAt, hget, if_pos hbyte, orNibble]
    by_cases hhalf : position' % 2 = position % 2
    · have heq : position' = position := by omega
      subst heq
      rw [if_pos rfl, half_orHalf_self _ _ hcode]
      change nibbleAt codes position' ||| code = code
      rw [hempty, UInt8.zero_or]
    · have hne : (position' % 2 != 0) ≠ (position % 2 != 0) := by
        simp only [bne, ne_eq, Bool.not_eq_eq_eq_not, Bool.not_not, beq_eq_beq]
        rcases Nat.mod_two_eq_zero_or_one position with h | h <;>
          rcases Nat.mod_two_eq_zero_or_one position' with h' | h' <;> simp_all
      have hne' : position' ≠ position := fun h => hhalf (h ▸ rfl)
      rw [if_neg hne', half_orHalf_of_ne _ hne hcode, hbyte, nibbleAt]
  · have hne : position' ≠ position := fun h => hbyte (h ▸ rfl)
    rw [nibbleAt, hget, if_neg hbyte, if_neg hne, nibbleAt]

/-- The codes of a range of bytes. -/
theorem nibbleAt_region (codes : List UInt8) {first size position : ℕ} (h : position < 2 * size) :
    nibbleAt (region codes first size) position = nibbleAt codes (2 * first + position) := by
  have hdiv : (2 * first + position) / 2 = first + position / 2 := by omega
  have hmod : (2 * first + position) % 2 = position % 2 := by omega
  have hget : (region codes first size).getD (position / 2) 0 =
      codes.getD (first + position / 2) 0 := by
    rw [List.getD_eq_getElem?_getD, List.getD_eq_getElem?_getD, region,
      List.getElem?_take_of_lt (by omega), List.getElem?_drop]
  rw [nibbleAt, nibbleAt, hdiv, hmod, hget]

/-- The code at a position is a code of the byte that holds it. -/
theorem nibbleAt_eq_region (codes : List UInt8) (position : ℕ) :
    nibbleAt codes position = nibbleAt (region codes (position / 2) 1) (position % 2) := by
  rw [nibbleAt_region codes (by omega), Nat.div_add_mod]

/-- The codes of written bytes. -/
theorem nibbleAt_writeRegion_of_within {codes source : List UInt8} {first position : ℕ}
    (hfit : first + source.length ≤ codes.length) (hlow : 2 * first ≤ position)
    (hhigh : position < 2 * (first + source.length)) :
    nibbleAt (writeRegion codes first source) position =
      nibbleAt source (position - 2 * first) := by
  have hdiv : position / 2 - first = (position - 2 * first) / 2 := by omega
  have hmod : position % 2 = (position - 2 * first) % 2 := by omega
  rw [nibbleAt_eq_region, region_writeRegion_of_within hfit (by omega) (by omega), hdiv, hmod,
    ← nibbleAt_eq_region]

/-- The codes of bytes that were not written. -/
theorem nibbleAt_writeRegion_of_outside {codes source : List UInt8} {first position : ℕ}
    (h : position < 2 * first ∨ 2 * (first + source.length) ≤ position) :
    nibbleAt (writeRegion codes first source) position = nibbleAt codes position := by
  rw [nibbleAt_eq_region, nibbleAt_eq_region codes]
  rcases h with h | h
  · rw [region_writeRegion_of_before (by omega)]
  · rw [region_writeRegion_of_after (by omega)]

end NNIS
