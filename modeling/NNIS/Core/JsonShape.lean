import Mathlib.Data.String.Basic
import NNIS.Core.JsonWrite
import NNIS.Text.Str

/-!
# Shapes and lengths of encoded values

An encoder builds its values from texts, truth values and unsigned integers by arrays and by objects
with fixed names. Such a value has distinct names and valid numbers and is nested as deep as it was
built, and the length of its text is bounded by the lengths of its parts: the parser reads it back.

## Main definitions

* `Json.Shaped`, `Json.Bounded`.

## Main results

* `Json.Shaped.array`, `Json.Shaped.object` — how shaped values are built.
* `Json.Shaped.parse_eq` — the parser reads a shaped value back.
* `Json.Bounded.string`, `Json.Bounded.array`, `Json.Bounded.object`.
-/

set_option autoImplicit false

namespace NNIS

namespace Str

theorem len_append (value value' : String) : len (value ++ value') = len value + len value' :=
  String.utf8ByteSize_append

theorem len_eq_utf8Len (value : String) : len value = String.utf8Len value.toList := by
  conv_lhs => rw [← String.ofList_toList (s := value)]
  exact String.utf8ByteSize_ofList _

end Str

namespace Decimal

/-- A printed number is a number of the grammar. -/
theorem isNumber_toString (n : ℕ) : Json.Grammar.IsNumber (toString n).toList := by
  rw [Nat.toString_eq_repr, Nat.toList_repr]
  refine ⟨[], Nat.toDigits 10 n, [], [], ?_, .inl rfl, ?_, .inl rfl, .inl rfl⟩
  · rw [List.append_nil, List.append_nil, List.nil_append]
  · rcases Nat.eq_zero_or_pos n with rfl | hpos
    · exact .inl rfl
    · refine .inr ⟨⟨Nat.toDigits_ne_nil, fun c hc => ?_⟩, head?_toDigits_ne_zero hpos⟩
      exact Nat.isDigit_of_mem_toDigits (by decide) (by decide) hc

end Decimal

namespace Json

/-! ### Shapes -/

/-- A value that the parser could return, nested within a depth. -/
structure Shaped (depth : ℕ) (value : Json) : Prop where
  keys : DistinctKeys value
  numbers : ValidNumbers value
  nested : NestedWithin depth value

namespace Shaped

variable {depth : ℕ}

@[simp] theorem null : Shaped depth .null := ⟨.null, .null, .null⟩

@[simp] theorem bool (value : Bool) : Shaped depth (.bool value) := ⟨.bool, .bool, .bool⟩

@[simp] theorem string (text : String) : Shaped depth (.string text) := ⟨.string, .string, .string⟩

theorem number {text : String} (h : Grammar.IsNumber text.toList) : Shaped depth (.number text) :=
  ⟨.number, .number h, .number⟩

@[simp] theorem unsigned (value : UInt64) : Shaped depth (.unsigned value) :=
  number (Decimal.isNumber_toString _)

theorem array {items : List Json} (h : ∀ item ∈ items, Shaped depth item) :
    Shaped (depth + 1) (.array items) :=
  ⟨.array fun item hmem => (h item hmem).keys, .array fun item hmem => (h item hmem).numbers,
    .array fun item hmem => (h item hmem).nested⟩

theorem object {members : List (String × Json)} (hkeys : (members.map Prod.fst).Nodup)
    (h : ∀ member ∈ members, Shaped depth member.2) : Shaped (depth + 1) (.object members) :=
  ⟨.object hkeys fun member hmem => (h member hmem).keys,
    .object fun member hmem => (h member hmem).numbers,
    .object fun member hmem => (h member hmem).nested⟩

/-- The parser reads back a value of this shape if its text is no longer than the parser takes, and
refuses the text otherwise. -/
theorem parse_eq {value : Json} (h : Shaped maxJsonDepth value) :
    parse (write value) =
      if Str.len (write value) ≤ maxJsonBytes then .ok value
      else .raise ⟨0, "input too large"⟩ := by
  split_ifs with hlen
  · exact Writable.readBack ⟨h.keys, h.numbers, h.nested, hlen⟩
  · exact if_pos (Nat.lt_of_not_le hlen)

end Shaped

/-! ### Lengths -/

/-- The text of a value is no longer than a bound. -/
def Bounded (bound : ℕ) (value : Json) : Prop := Str.len (write value) ≤ bound

private theorem utf8Len_writeChar_le (c : Char) :
    String.utf8Len (writeChar c).toList ≤ 6 * c.utf8Size := by
  have hpos : 1 ≤ c.utf8Size := c.utf8Size_pos
  have hhex : ∀ digit < 16, (hexChar digit).utf8Size = 1 := by decide
  unfold writeChar
  split_ifs with hquote hbackslash hnewline hreturn htab hcontrol
  · exact Nat.le_trans (by decide) (Nat.mul_le_mul_left 6 hpos)
  · exact Nat.le_trans (by decide) (Nat.mul_le_mul_left 6 hpos)
  · exact Nat.le_trans (by decide) (Nat.mul_le_mul_left 6 hpos)
  · exact Nat.le_trans (by decide) (Nat.mul_le_mul_left 6 hpos)
  · exact Nat.le_trans (by decide) (Nat.mul_le_mul_left 6 hpos)
  · refine Nat.le_trans (Nat.le_of_eq ?_) (Nat.mul_le_mul_left 6 hpos)
    have hdigit (n : ℕ) : (hexChar (n % 16)).utf8Size = 1 := hhex _ (Nat.mod_lt n (by decide))
    rw [hexText, String.toList_append, String.utf8Len_append]
    simp only [String.toList_ofList, String.utf8Len_cons, String.utf8Len_nil, hdigit]
    rfl
  · rw [String.toList_singleton, String.utf8Len_cons, String.utf8Len_nil]
    omega

theorem len_writeString_le (text : String) :
    Str.len (writeString text) ≤ 6 * Str.len text + 2 := by
  have hbody (chars : List Char) :
      String.utf8Len (chars.flatMap fun c => (writeChar c).toList) ≤ 6 * String.utf8Len chars := by
    induction chars with
    | nil => exact Nat.le_refl 0
    | cons c chars ih =>
      have hc := utf8Len_writeChar_le c
      rw [List.flatMap_cons, String.utf8Len_append, String.utf8Len_cons]
      omega
  have htext := hbody text.toList
  have hquote : String.utf8Len "\"".toList = 1 := rfl
  rw [Str.len_eq_utf8Len, Str.len_eq_utf8Len text, writeString, String.toList_append,
    String.toList_append, String.toList_join, List.flatMap_map, String.utf8Len_append,
    String.utf8Len_append, hquote]
  omega

private theorem len_writeItems_le {items : List Json} {bound : ℕ}
    (h : ∀ item ∈ items, Bounded bound item) :
    Str.len (writeItems items) ≤ items.length * (bound + 1) := by
  induction items with
  | nil => exact Nat.le_of_eq (Nat.zero_mul _).symm
  | cons item items ih =>
    obtain ⟨hitem, hitems⟩ := List.forall_mem_cons.1 h
    have hrest := ih hitems
    have hfirst : Str.len (write item) ≤ bound := hitem
    rw [List.length_cons, Nat.succ_mul]
    cases items with
    | nil =>
      rw [writeItems]
      omega
    | cons item' items =>
      have hcomma : Str.len "," = 1 := rfl
      rw [writeItems, Str.len_append, Str.len_append, hcomma]
      · omega
      · exact List.cons_ne_nil _ _

private theorem len_writeMembers_le {members : List (String × Json)} {name bound : ℕ}
    (h : ∀ member ∈ members, Str.len member.1 ≤ name ∧ Bounded bound member.2) :
    Str.len (writeMembers members) ≤ members.length * (6 * name + bound + 4) := by
  induction members with
  | nil => exact Nat.le_of_eq (Nat.zero_mul _).symm
  | cons member members ih =>
    obtain ⟨key, item⟩ := member
    obtain ⟨⟨hkey, hitem⟩, hmembers⟩ := List.forall_mem_cons.1 h
    have hkey : Str.len key ≤ name := hkey
    have hrest := ih hmembers
    have hname := len_writeString_le key
    have hvalue : Str.len (write item) ≤ bound := hitem
    have hcolon : Str.len ":" = 1 := rfl
    rw [List.length_cons, Nat.succ_mul]
    cases members with
    | nil =>
      rw [writeMembers, Str.len_append, Str.len_append, hcolon]
      omega
    | cons member' members =>
      have hcomma : Str.len "," = 1 := rfl
      rw [writeMembers, Str.len_append, Str.len_append, Str.len_append, Str.len_append, hcolon,
        hcomma]
      · omega
      · exact List.cons_ne_nil _ _

namespace Bounded

theorem mono {bound bound' : ℕ} {value : Json} (h : Bounded bound value) (hle : bound ≤ bound') :
    Bounded bound' value :=
  Nat.le_trans h hle

theorem bool (value : Bool) : Bounded 5 (.bool value) := by
  cases value with
  | true => exact Nat.le_succ 4
  | false => exact Nat.le_refl 5

theorem string {text : String} {limit : ℕ} (h : Str.len text ≤ limit) :
    Bounded (6 * limit + 2) (.string text) := by
  have hwrite : Str.len (write (.string text)) ≤ 6 * Str.len text + 2 := len_writeString_le text
  exact Nat.le_trans hwrite (by omega)

theorem unsigned (value : UInt64) : Bounded 20 (.unsigned value) :=
  Decimal.len_toString_le (by decide) (Nat.lt_trans value.toNat_lt (by decide))

theorem array {items : List Json} {bound : ℕ} (h : ∀ item ∈ items, Bounded bound item) :
    Bounded (items.length * (bound + 1) + 2) (.array items) := by
  have hitems := len_writeItems_le h
  have hopen : Str.len "[" = 1 := rfl
  have hclose : Str.len "]" = 1 := rfl
  rw [Bounded, write, Str.len_append, Str.len_append, hopen, hclose]
  omega

/-- An object of `n` members with names of at most `name` bytes. -/
theorem object {members : List (String × Json)} (n name bound : ℕ) (hn : members.length = n)
    (h : ∀ member ∈ members, Str.len member.1 ≤ name ∧ Bounded bound member.2) :
    Bounded (n * (6 * name + bound + 4) + 2) (.object members) := by
  have hmembers := len_writeMembers_le h
  have hopen : Str.len "\x7b" = 1 := rfl
  have hclose : Str.len "\x7d" = 1 := rfl
  rw [Bounded, write, Str.len_append, Str.len_append, hopen, hclose, ← hn]
  omega

end Bounded

end Json

end NNIS
