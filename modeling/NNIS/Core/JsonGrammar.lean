import Mathlib.Data.List.Forall2
import NNIS.Core.Json

/-!
# The grammar of JSON texts

The grammar of RFC 8259 over the characters of a text. A rule relates what is left of a text before
and after the words it derives, so that `Value t tree r` says that `t` is a value followed by `r`.
The white space that the standard puts around the structural characters is written out.

A text derives a syntax tree, in which a string is still a list of characters and of escaped UTF-16
code units. A tree denotes a value if the surrogates of its strings are paired; a surrogate on its
own denotes no character.

## Main definitions

* `Json.Grammar.IsNumber`, `Json.Grammar.StringText`, `Json.Grammar.Value`,
  `Json.Grammar.JsonText` — derivations.
* `Json.Grammar.Decodes`, `Json.Grammar.Denotes` — the meaning of a tree.
* `Json.NestedWithin`, `Json.DistinctKeys`, `Json.ValidNumbers` — conditions on values.

## Main results

* `Json.induction` — induction on values.
-/

set_option autoImplicit false

namespace NNIS

namespace Json

/-! ### Values -/

/-- Arrays and objects are nested at most `depth` deep. -/
inductive NestedWithin : ℕ → Json → Prop
  | null {depth : ℕ} : NestedWithin depth .null
  | bool {depth : ℕ} {value : Bool} : NestedWithin depth (.bool value)
  | number {depth : ℕ} {text : String} : NestedWithin depth (.number text)
  | string {depth : ℕ} {text : String} : NestedWithin depth (.string text)
  | array {depth : ℕ} {items : List Json} (h : ∀ item ∈ items, NestedWithin depth item) :
    NestedWithin (depth + 1) (.array items)
  | object {depth : ℕ} {members : List (String × Json)}
      (h : ∀ member ∈ members, NestedWithin depth member.2) :
    NestedWithin (depth + 1) (.object members)

theorem NestedWithin.of_array {depth : ℕ} {items : List Json}
    (h : NestedWithin depth (.array items)) :
    ∃ inner, depth = inner + 1 ∧ ∀ item ∈ items, NestedWithin inner item := by
  cases h with
  | array h => exact ⟨_, rfl, h⟩

theorem NestedWithin.of_object {depth : ℕ} {members : List (String × Json)}
    (h : NestedWithin depth (.object members)) :
    ∃ inner, depth = inner + 1 ∧ ∀ member ∈ members, NestedWithin inner member.2 := by
  cases h with
  | object h => exact ⟨_, rfl, h⟩

/-- No object has two members of one name. -/
inductive DistinctKeys : Json → Prop
  | null : DistinctKeys .null
  | bool {value : Bool} : DistinctKeys (.bool value)
  | number {text : String} : DistinctKeys (.number text)
  | string {text : String} : DistinctKeys (.string text)
  | array {items : List Json} (h : ∀ item ∈ items, DistinctKeys item) : DistinctKeys (.array items)
  | object {members : List (String × Json)} (hkeys : (members.map Prod.fst).Nodup)
      (h : ∀ member ∈ members, DistinctKeys member.2) : DistinctKeys (.object members)

theorem induction {P : Json → Prop} (null : P .null) (bool : ∀ value, P (.bool value))
    (number : ∀ text, P (.number text)) (string : ∀ text, P (.string text))
    (array : ∀ items, (∀ item ∈ items, P item) → P (.array items))
    (object : ∀ members : List (String × Json), (∀ member ∈ members, P member.2) →
      P (.object members)) : ∀ value, P value
  | .null => null
  | .bool value => bool value
  | .number text => number text
  | .string text => string text
  | .array items => array items fun item _ =>
    induction null bool number string array object item
  | .object members => object members fun member _ =>
    induction null bool number string array object member.2
termination_by value => value
decreasing_by
  · simp only [Json.array.sizeOf_spec]
    have := List.sizeOf_lt_of_mem ‹item ∈ items›
    omega
  · simp only [Json.object.sizeOf_spec]
    have hlt := List.sizeOf_lt_of_mem ‹member ∈ members›
    obtain ⟨key, item⟩ := member
    simp only [Prod.mk.sizeOf_spec] at hlt ⊢
    omega

namespace Grammar

/-! ### White space and numbers -/

def isWhitespace (c : Char) : Bool := c == ' ' || c == '\t' || c == '\n' || c == '\r'

def isDigit (c : Char) : Bool := '0' ≤ c && c ≤ '9'

/-- Any amount of white space. -/
inductive Ws : List Char → List Char → Prop
  | nil {r : List Char} : Ws r r
  | cons {c : Char} {t r : List Char} (hc : isWhitespace c = true) (h : Ws t r) : Ws (c :: t) r

/-- The text does not start with a character that passes a test. -/
def NoHead (p : Char → Bool) (t : List Char) : Prop := t.head?.any p = false

theorem NoHead.append {p : Char → Bool} {t r : List Char} (ht : NoHead p t) (hr : NoHead p r) :
    NoHead p (t ++ r) := by
  cases t with
  | nil => exact hr
  | cons c t => exact ht

theorem NoHead.head?_ne {p : Char → Bool} {t : List Char} (h : NoHead p t) {c : Char}
    (hc : p c = true) : t.head? ≠ some c := by
  intro hhead
  rw [NoHead, hhead, Option.any_some, hc] at h
  exact absurd h nofun

theorem NoHead.mono {p q : Char → Bool} {t : List Char} (h : NoHead p t)
    (hpq : ∀ c, q c = true → p c = true) : NoHead q t := by
  cases t with
  | nil => rfl
  | cons c t => exact Bool.eq_false_iff.2 fun hc => Bool.eq_false_iff.1 h (hpq c hc)

theorem ws_dropWhile (t : List Char) : Ws t (t.dropWhile isWhitespace) := by
  induction t with
  | nil => exact .nil
  | cons c t ih =>
    by_cases hc : isWhitespace c = true
    · rw [List.dropWhile_cons_of_pos hc]
      exact .cons hc ih
    · rw [List.dropWhile_cons_of_neg hc]
      exact .nil

theorem Ws.trans {t t' r : List Char} (h : Ws t t') (h' : Ws t' r) : Ws t r := by
  induction h with
  | nil => exact h'
  | cons hc _ ih => exact .cons hc (ih h')

theorem Ws.length_le {t r : List Char} (h : Ws t r) : r.length ≤ t.length := by
  induction h with
  | nil => exact Nat.le_refl _
  | cons hc _ ih => exact Nat.le_succ_of_le ih

/-- White space is skipped as far as it goes. -/
theorem Ws.dropWhile_eq {t r : List Char} (h : Ws t r) (hr : NoHead isWhitespace r) :
    t.dropWhile isWhitespace = r := by
  induction h with
  | @nil r =>
    cases r with
    | nil => rfl
    | cons c r => exact List.dropWhile_cons_of_neg (Bool.eq_false_iff.1 hr)
  | cons hc _ ih => rw [List.dropWhile_cons_of_pos hc, ih hr]

/-- One digit or more. -/
def IsDigits (text : List Char) : Prop := text ≠ [] ∧ ∀ c ∈ text, isDigit c = true

/-- An integer part: zero, or digits that do not start with it. -/
def IsInt (text : List Char) : Prop := text = ['0'] ∨ (IsDigits text ∧ text.head? ≠ some '0')

/-- An optional fraction. -/
def IsFrac (text : List Char) : Prop := text = [] ∨ ∃ digits, text = '.' :: digits ∧ IsDigits digits

/-- An optional sign of an exponent. -/
def IsSign (text : List Char) : Prop := text = [] ∨ text = ['+'] ∨ text = ['-']

/-- An optional exponent. -/
def IsExp (text : List Char) : Prop :=
  text = [] ∨ ∃ e sign digits, text = e :: (sign ++ digits) ∧ (e = 'e' ∨ e = 'E') ∧ IsSign sign ∧
    IsDigits digits

/-- The texts of numbers. -/
def IsNumber (text : List Char) : Prop :=
  ∃ minus int frac exp, text = minus ++ (int ++ (frac ++ exp)) ∧ (minus = [] ∨ minus = ['-']) ∧
    IsInt int ∧ IsFrac frac ∧ IsExp exp

/-! ### Strings -/

/-- Part of a string: a character, or a UTF-16 code unit that is written by its number. -/
inductive Element
  | char (c : Char)
  | unit (code : ℕ)

/-- Characters that stand for themselves. -/
def isUnescaped (c : Char) : Bool := 0x20 ≤ c.toNat && c ≠ '"' && c ≠ '\\'

/-- The character of an escape of two characters. -/
def escapeChar : Char → Option Char
  | '"' => some '"'
  | '\\' => some '\\'
  | '/' => some '/'
  | 'b' => some '\x08'
  | 'f' => some '\x0c'
  | 'n' => some '\n'
  | 'r' => some '\r'
  | 't' => some '\t'
  | _ => none

/-- The value of a hexadecimal digit. -/
def hexValue (c : Char) : Option ℕ :=
  if '0' ≤ c ∧ c ≤ '9' then some (c.toNat - '0'.toNat)
  else if 'a' ≤ c ∧ c ≤ 'f' then some (c.toNat - 'a'.toNat + 10)
  else if 'A' ≤ c ∧ c ≤ 'F' then some (c.toNat - 'A'.toNat + 10)
  else none

/-- Four hexadecimal digits. -/
inductive Hex4 : List Char → ℕ → List Char → Prop
  | mk {a b c d : Char} {w x y z : ℕ} {r : List Char} (ha : hexValue a = some w)
      (hb : hexValue b = some x) (hc : hexValue c = some y) (hd : hexValue d = some z) :
    Hex4 (a :: b :: c :: d :: r) (((w * 16 + x) * 16 + y) * 16 + z) r

/-- A string after its opening quotation mark. -/
inductive StringText : List Char → List Element → List Char → Prop
  | close {r : List Char} : StringText ('"' :: r) [] r
  | unescaped {c : Char} {t r : List Char} {elements : List Element} (hc : isUnescaped c = true)
      (h : StringText t elements r) : StringText (c :: t) (.char c :: elements) r
  | escape {c c' : Char} {t r : List Char} {elements : List Element} (hc : escapeChar c = some c')
      (h : StringText t elements r) : StringText ('\\' :: c :: t) (.char c' :: elements) r
  | unicode {t t' r : List Char} {code : ℕ} {elements : List Element} (hcode : Hex4 t code t')
      (h : StringText t' elements r) :
    StringText ('\\' :: 'u' :: t) (.unit code :: elements) r

def IsHighSurrogate (code : ℕ) : Prop := 0xD800 ≤ code ∧ code < 0xDC00

def IsLowSurrogate (code : ℕ) : Prop := 0xDC00 ≤ code ∧ code < 0xE000

/-- The characters of a string: a high surrogate is paired with the low surrogate after it. -/
inductive Decodes : List Element → List Char → Prop
  | nil : Decodes [] []
  | char {c : Char} {elements : List Element} {chars : List Char} (h : Decodes elements chars) :
    Decodes (.char c :: elements) (c :: chars)
  | scalar {code : ℕ} {elements : List Element} {chars : List Char}
      (hhigh : ¬ IsHighSurrogate code) (hlow : ¬ IsLowSurrogate code)
      (h : Decodes elements chars) : Decodes (.unit code :: elements) (Char.ofNat code :: chars)
  | pair {high low : ℕ} {elements : List Element} {chars : List Char}
      (hhigh : IsHighSurrogate high) (hlow : IsLowSurrogate low) (h : Decodes elements chars) :
    Decodes (.unit high :: .unit low :: elements)
      (Char.ofNat (0x10000 + (high - 0xD800) * 2 ^ 10 + (low - 0xDC00)) :: chars)

/-! ### Texts -/

/-- A syntax tree. -/
inductive Syntax
  | null
  | bool (value : Bool)
  | number (text : List Char)
  | string (elements : List Element)
  | array (items : List Syntax)
  | object (members : List (List Element × Syntax))

mutual

/-- A value without white space around it. -/
inductive Value : List Char → Syntax → List Char → Prop
  | null {r : List Char} : Value ('n' :: 'u' :: 'l' :: 'l' :: r) .null r
  | litTrue {r : List Char} : Value ('t' :: 'r' :: 'u' :: 'e' :: r) (.bool true) r
  | litFalse {r : List Char} : Value ('f' :: 'a' :: 'l' :: 's' :: 'e' :: r) (.bool false) r
  | number {text r : List Char} (h : IsNumber text) : Value (text ++ r) (.number text) r
  | string {t r : List Char} {elements : List Element} (h : StringText t elements r) :
    Value ('"' :: t) (.string elements) r
  | emptyArray {t r : List Char} (h : Ws t (']' :: r)) : Value ('[' :: t) (.array []) r
  | array {t r : List Char} {items : List Syntax} (h : Items t items r) :
    Value ('[' :: t) (.array items) r
  | emptyObject {t r : List Char} (h : Ws t ('\x7d' :: r)) : Value ('\x7b' :: t) (.object []) r
  | object {t r : List Char} {members : List (List Element × Syntax)} (h : Members t members r) :
    Value ('\x7b' :: t) (.object members) r

/-- The items of an array up to its end. -/
inductive Items : List Char → List Syntax → List Char → Prop
  | last {t t₁ t₂ r : List Char} {item : Syntax} (hbefore : Ws t t₁) (hitem : Value t₁ item t₂)
      (hafter : Ws t₂ (']' :: r)) : Items t [item] r
  | cons {t t₁ t₂ t₃ r : List Char} {item : Syntax} {items : List Syntax} (hbefore : Ws t t₁)
      (hitem : Value t₁ item t₂) (hafter : Ws t₂ (',' :: t₃)) (hitems : Items t₃ items r) :
    Items t (item :: items) r

/-- The members of an object up to its end. -/
inductive Members : List Char → List (List Element × Syntax) → List Char → Prop
  | last {t t₂ r : List Char} {member : List Element × Syntax} (hmember : Member t member t₂)
      (hafter : Ws t₂ ('\x7d' :: r)) : Members t [member] r
  | cons {t t₂ t₃ r : List Char} {member : List Element × Syntax}
      {members : List (List Element × Syntax)} (hmember : Member t member t₂)
      (hafter : Ws t₂ (',' :: t₃)) (hmembers : Members t₃ members r) :
    Members t (member :: members) r

/-- A member of an object, with the white space before it. -/
inductive Member : List Char → List Element × Syntax → List Char → Prop
  | mk {t t₁ t₂ t₃ t₄ r : List Char} {key : List Element} {item : Syntax}
      (hbefore : Ws t ('"' :: t₁)) (hkey : StringText t₁ key t₂) (hcolon : Ws t₂ (':' :: t₃))
      (hitem : Ws t₃ t₄) (h : Value t₄ item r) : Member t (key, item) r

end

/-- A whole text. -/
def JsonText (text : List Char) (tree : Syntax) : Prop :=
  ∃ t r, Ws text t ∧ Value t tree r ∧ Ws r []

/-- A tree denotes a value. -/
inductive Denotes : Syntax → Json → Prop
  | null : Denotes .null .null
  | bool {value : Bool} : Denotes (.bool value) (.bool value)
  | number {text : List Char} : Denotes (.number text) (.number (String.ofList text))
  | string {elements : List Element} {chars : List Char} (h : Decodes elements chars) :
    Denotes (.string elements) (.string (String.ofList chars))
  | array {items : List Syntax} {values : List Json} (h : List.Forall₂ Denotes items values) :
    Denotes (.array items) (.array values)
  | object {members : List (List Element × Syntax)} {values : List (String × Json)}
      (hkeys : List.Forall₂ (fun member value => Decodes member.1 value.1.toList) members values)
      (h : List.Forall₂ (fun member value => Denotes member.2 value.2) members values) :
    Denotes (.object members) (.object values)

end Grammar

/-- The texts of all numbers in a value are numbers. -/
inductive ValidNumbers : Json → Prop
  | null : ValidNumbers .null
  | bool {value : Bool} : ValidNumbers (.bool value)
  | number {text : String} (h : Grammar.IsNumber text.toList) : ValidNumbers (.number text)
  | string {text : String} : ValidNumbers (.string text)
  | array {items : List Json} (h : ∀ item ∈ items, ValidNumbers item) : ValidNumbers (.array items)
  | object {members : List (String × Json)} (h : ∀ member ∈ members, ValidNumbers member.2) :
    ValidNumbers (.object members)

end Json

end NNIS
