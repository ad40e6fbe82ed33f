import Mathlib.Algebra.Group.Nat.Defs
import Mathlib.Data.List.DropRight
import Mathlib.Data.Nat.Notation
import Mathlib.Data.String.Basic
import NNIS.Semantics.Outcome

/-!
# Text of the source's standard library

The functions on texts that the validators call, by their documented behaviour: the white space
trimmed is the Unicode property, a control character is one of the general category, lengths are
those of the UTF-8 encoding, and case is folded for ASCII letters only. Printing an unsigned integer
gives its digits, the first of which is zero only for zero itself; parsing takes digits with an
optional plus sign before them, and refuses a number that does not fit.

## Main definitions

* `Str.len`, `Str.isWhitespace`, `Str.trim`, `Str.isControl`.
* `Str.toAsciiLowercase`, `Str.eqIgnoreAsciiCase`, `Str.contains`, `Str.isLowerHex`.
* `Str.requireCanonicalId`.
* `Str.parseUnsigned`.

## Main results

* `Str.parseUnsigned_toString` — a printed number is parsed back.
* `Decimal.head?_toDigits_ne_zero` — no leading zero is printed.
* `Decimal.len_toString_le` — the length of a printed number.
-/

set_option autoImplicit false

namespace NNIS

namespace Str

/-- The number of bytes of the UTF-8 encoding. -/
def len (value : String) : ℕ := value.utf8ByteSize

/-- Characters with the Unicode property of white space. -/
def isWhitespace (c : Char) : Bool :=
  let n := c.toNat
  (0x9 ≤ n && n ≤ 0xD) || n == 0x20 || n == 0x85 || n == 0xA0 || n == 0x1680 ||
    (0x2000 ≤ n && n ≤ 0x200A) || n == 0x2028 || n == 0x2029 || n == 0x202F || n == 0x205F ||
    n == 0x3000

/-- Remove white space from both ends. -/
def trim (value : String) : String :=
  String.ofList ((value.toList.dropWhile isWhitespace).rdropWhile isWhitespace)

/-- Characters of the general category of control characters. -/
def isControl (c : Char) : Bool :=
  let n := c.toNat
  n ≤ 0x1F || (0x7F ≤ n && n ≤ 0x9F)

/-- A character with its case folded when it is an ASCII letter. -/
def lowerAscii (c : Char) : Char :=
  if 0x41 ≤ c.toNat && c.toNat ≤ 0x5A then Char.ofNat (c.toNat + 0x20) else c

/-- A text with the case of its ASCII letters folded. -/
def toAsciiLowercase (value : String) : String := String.ofList (value.toList.map lowerAscii)

/-- Equality up to the case of ASCII letters. -/
def eqIgnoreAsciiCase (value value' : String) : Bool :=
  toAsciiLowercase value == toAsciiLowercase value'

/-- A text occurs in another one. -/
def contains (value pattern : String) : Bool :=
  value.toList.tails.any fun rest => pattern.toList.isPrefixOf rest

/-- Lowercase hexadecimal digits. -/
def isLowerHex (c : Char) : Bool := ('0' ≤ c && c ≤ '9') || ('a' ≤ c && c ≤ 'f')

/-- Refuse a name that is blank, has surrounding white space or is too long. -/
def requireCanonicalId {ε : Type} (limit : ℕ) (empty nonCanonical : ε) (tooLong : ℕ → ε)
    (value : String) : Outcome ε PUnit := do
  .require (trim value ≠ "") empty
  .require (trim value = value) nonCanonical
  .require (len value ≤ limit) (tooLong (len value))

end Str

namespace Decimal

/-- The digits of a text after an optional plus sign. -/
def unsignedDigits : List Char → List Char
  | '+' :: digits => digits
  | digits => digits

end Decimal

namespace Str

/-- The number below a limit that a text spells. -/
def parseUnsigned (limit : ℕ) (text : String) : Option ℕ :=
  let digits := Decimal.unsignedDigits text.toList
  let value := Nat.ofDigitChars 10 digits 0
  if digits ≠ [] ∧ digits.all Char.isDigit = true ∧ value < limit then some value else none

end Str

namespace Decimal

theorem all_isDigit_toDigits (n : ℕ) : (Nat.toDigits 10 n).all Char.isDigit = true :=
  List.all_eq_true.2 fun _ hc => Nat.isDigit_of_mem_toDigits (by decide) (by decide) hc

/-- Digits start with no plus sign. -/
theorem unsignedDigits_of_all {digits : List Char} (h : digits.all Char.isDigit = true) :
    unsignedDigits digits = digits := by
  unfold unsignedDigits
  split
  · exact absurd h Bool.false_ne_true
  · rfl

/-- The first digit of a positive number is not zero. -/
theorem head?_toDigits_ne_zero {n : ℕ} (h : 0 < n) : (Nat.toDigits 10 n).head? ≠ some '0' := by
  induction n using Nat.strong_induction_on with
  | _ n ih =>
    rcases Nat.lt_or_ge n 10 with hlt | hge
    · have htable : ∀ m < 10, 0 < m → Nat.digitChar m ≠ '0' := by decide
      rw [Nat.toDigits_of_lt_base hlt, List.head?_cons]
      exact fun heq => htable n hlt h (Option.some.inj heq)
    · rw [Nat.toDigits_of_base_le (by decide) hge,
        List.head?_append_of_ne_nil _ Nat.toDigits_ne_nil]
      exact ih (n / 10) (by omega) (by omega)

private theorem utf8Len_of_all_isDigit {digits : List Char} (h : digits.all Char.isDigit = true) :
    String.utf8Len digits = digits.length := by
  induction digits with
  | nil => rfl
  | cons c digits ih =>
    obtain ⟨hc, hdigits⟩ := Bool.and_eq_true_iff.1 (List.all_cons.symm.trans h)
    have hle : c.val ≤ 127 := by
      simp only [Char.isDigit, ge_iff_le, Bool.and_eq_true, decide_eq_true_eq] at hc
      exact UInt32.le_trans hc.2 (by decide)
    rw [String.utf8Len_cons, ih hdigits, Char.utf8Size_eq_one_iff.2 hle, List.length_cons]

/-- A number of at most `k` digits is printed in at most `k` bytes. -/
theorem len_toString_le {n k : ℕ} (hk : 0 < k) (h : n < 10 ^ k) : Str.len (toString n) ≤ k := by
  rw [Str.len, Nat.toString_eq_ofList_toDigits, String.utf8ByteSize_ofList,
    utf8Len_of_all_isDigit (all_isDigit_toDigits n)]
  exact (Nat.length_toDigits_le_iff (by decide) hk).2 h

end Decimal

namespace Str

theorem parseUnsigned_toString {limit n : ℕ} (h : n < limit) :
    parseUnsigned limit (toString n) = some n := by
  have hdigits : Decimal.unsignedDigits (toString n).toList = Nat.toDigits 10 n := by
    rw [Nat.toString_eq_repr, Nat.toList_repr]
    exact Decimal.unsignedDigits_of_all (Decimal.all_isDigit_toDigits n)
  simp only [parseUnsigned, hdigits, Nat.ofDigitChars_ten_toDigits]
  exact if_pos ⟨Nat.toDigits_ne_nil, Decimal.all_isDigit_toDigits n, h⟩

end Str

end NNIS
