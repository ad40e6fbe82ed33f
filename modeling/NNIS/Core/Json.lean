import NNIS.Semantics.Fallible
import NNIS.Semantics.Outcome
import NNIS.Text.Utf8

/-!
# JSON values

The value model, the parser and the writer of `nnis-core/src/json.rs`. The parser walks over the
bytes of its input by position; a slice that starts behind the end panics. The calls of `value` are
bounded by the depth limit, and a loop that reads items is given one round for each byte: running
out of either is a panic, too, so that a parser that never panics always ends by itself.

## Main definitions

* `Json`, `JsonSyntaxError`, `Json.parse`.
* `Json.Parser.string`, `Json.Parser.number`, `Json.Parser.array`, `Json.Parser.object`,
  `Json.Parser.value`.
* `Json.write`, `Json.unsigned`.
-/

set_option autoImplicit false

namespace NNIS

/-- Maximum accepted input size in bytes. -/
def maxJsonBytes : ℕ := 16 * 1024 * 1024

/-- Maximum nesting depth of arrays and objects. -/
def maxJsonDepth : ℕ := 64

/-- Parsed JSON value. -/
inductive Json
  | null
  | bool (value : Bool)
  /-- Exact number text, already checked against the JSON grammar. -/
  | number (text : String)
  | string (text : String)
  | array (items : List Json)
  /-- Members in source order with unique keys. -/
  | object (members : List (String × Json))

/-- JSON syntax error with the byte offset where parsing failed. -/
structure JsonSyntaxError where
  offset : ℕ
  reason : String
  deriving DecidableEq

namespace Json

/-- A computation of the parser: it moves the position, and fails with an error or a panic. -/
abbrev Parser (α : Type) := Fallible ℕ (Stop JsonSyntaxError) α

namespace Parser

open Utf8 (byte)

/-! ### Bytes -/

def isDigit (b : UInt8) : Bool := byte '0' ≤ b && b ≤ byte '9'

def isWhitespace (b : UInt8) : Bool :=
  b == byte ' ' || b == byte '\t' || b == byte '\n' || b == byte '\r'

/-- The bytes of a string that stand for themselves. -/
def isPlain (b : UInt8) : Bool := !(b == byte '"' || b == byte '\\' || b < 0x20)

/-- The value of a hexadecimal digit. -/
def hexDigit (b : UInt8) : Option ℕ :=
  if isDigit b then some (b.toNat - (byte '0').toNat)
  else if byte 'a' ≤ b && b ≤ byte 'f' then some (b.toNat - (byte 'a').toNat + 10)
  else if byte 'A' ≤ b && b ≤ byte 'F' then some (b.toNat - (byte 'A').toNat + 10)
  else none

/-- The character of an escape of two characters. -/
def simpleEscape (b : UInt8) : Option Char :=
  if b = byte '"' then some '"'
  else if b = byte '\\' then some '\\'
  else if b = byte '/' then some '/'
  else if b = byte 'b' then some '\x08'
  else if b = byte 'f' then some '\x0c'
  else if b = byte 'n' then some '\n'
  else if b = byte 'r' then some '\r'
  else if b = byte 't' then some '\t'
  else none

/-- The character of a code point. -/
def fromU32 (code : ℕ) : Option Char := if code.isValidChar then some (Char.ofNat code) else none

/-! ### Lexemes -/

section

variable (bytes : List UInt8)

def error {α : Type} (reason : String) : Parser α := do
  let position ← Fallible.get
  Fallible.fail (.error ⟨position, reason⟩)

def peek : Parser (Option UInt8) := do
  let position ← Fallible.get
  pure bytes[position]?

def advance (count : ℕ) : Parser PUnit := Fallible.modify (· + count)

/-- The bytes from the position on. -/
def rest : Parser (List UInt8) := do
  let position ← Fallible.get
  if position ≤ bytes.length then pure (bytes.drop position) else Fallible.fail .panic

/-- The bytes from `start` up to the position. -/
def slice (start : ℕ) : Parser (List UInt8) := do
  let position ← Fallible.get
  if start ≤ position ∧ position ≤ bytes.length then
    pure ((bytes.drop start).take (position - start))
  else Fallible.fail .panic

/-- Advance while the next byte passes a test. -/
def skipWhile (p : UInt8 → Bool) : Parser PUnit :=
  Fallible.modify fun position => position + ((bytes.drop position).takeWhile p).length

def whitespace : Parser PUnit := skipWhile bytes isWhitespace

def digits : Parser PUnit := skipWhile bytes isDigit

def literal (text : String) (value : Json) : Parser Json := do
  let rest ← rest bytes
  if (Str.asBytes text).isPrefixOf rest then do
    advance (Str.asBytes text).length
    pure value
  else error "invalid literal"

/-! ### Numbers -/

def sign : Parser PUnit := do
  let next ← peek bytes
  if next = some (byte '-') then advance 1 else pure ⟨⟩

def integer : Parser PUnit := do
  let next ← peek bytes
  if next = some (byte '0') then do
    advance 1
    let next ← peek bytes
    if next.any isDigit then error "leading zero" else pure ⟨⟩
  else if next.any isDigit then digits bytes
  else error "expected digit"

def fraction : Parser PUnit := do
  let next ← peek bytes
  if next = some (byte '.') then do
    advance 1
    let next ← peek bytes
    if next.any isDigit then digits bytes else error "expected fraction digit"
  else pure ⟨⟩

def exponentSign : Parser PUnit := do
  let next ← peek bytes
  if next = some (byte '+') ∨ next = some (byte '-') then advance 1 else pure ⟨⟩

def exponent : Parser PUnit := do
  let next ← peek bytes
  if next = some (byte 'e') ∨ next = some (byte 'E') then do
    advance 1
    exponentSign bytes
    let next ← peek bytes
    if next.any isDigit then digits bytes else error "expected exponent digit"
  else pure ⟨⟩

def number : Parser Json := do
  let start ← Fallible.get
  sign bytes
  integer bytes
  fraction bytes
  exponent bytes
  let text ← slice bytes start
  match Str.fromUtf8 text with
  | some text => pure (.number text)
  | none => error "invalid number"

/-! ### Strings -/

def hex4Round (value : ℕ) : Parser ℕ := do
  let next ← peek bytes
  match next.bind hexDigit with
  | some digit => do
    advance 1
    pure (value * 16 + digit)
  | none => error "invalid unicode escape"

def hex4 : Parser ℕ := Fallible.foldRange 4 0 fun _ value => hex4Round bytes value

/-- The code point of an escape, after the `u`: a surrogate is the first of a pair. -/
def unicodeEscape : Parser ℕ := do
  let first ← hex4 bytes
  if 0xD800 ≤ first ∧ first < 0xDC00 then do
    let rest ← rest bytes
    if (Str.asBytes "\\u").isPrefixOf rest then do
      advance 2
      let second ← hex4 bytes
      if 0xDC00 ≤ second ∧ second < 0xE000 then
        pure (0x10000 + (first - 0xD800) * 2 ^ 10 + (second - 0xDC00))
      else error "lone surrogate"
    else error "lone surrogate"
  else if 0xDC00 ≤ first ∧ first < 0xE000 then error "lone surrogate"
  else pure first

/-- The character of an escape, after the backslash. -/
def escape : Parser Char := do
  match ← peek bytes with
  | none => error "unterminated escape"
  | some escape => do
    advance 1
    match simpleEscape escape with
    | some c => pure c
    | none =>
      if escape = byte 'u' then do
        let code ← unicodeEscape bytes
        match fromU32 code with
        | some c => pure c
        | none => error "invalid code point"
      else error "invalid escape"

/-- One round of the loop over a string: a run of plain bytes, then its end or an escape. -/
def stringRound (output : String) : Parser (String ⊕ String) := do
  let runStart ← Fallible.get
  skipWhile bytes isPlain
  let run ← slice bytes runStart
  match Str.fromUtf8 run with
  | none => error "invalid UTF-8"
  | some run => do
    match ← peek bytes with
    | none => error "unterminated string"
    | some next =>
      if next = byte '"' then do
        advance 1
        pure (.inr (output ++ run))
      else if next = byte '\\' then do
        advance 1
        let c ← escape bytes
        pure (.inl ((output ++ run).push c))
      else error "control character in string"

def string : Parser String := do
  advance 1
  Fallible.loop .panic (bytes.length + 1) "" (stringRound bytes)

/-! ### Values -/

/-- One round of the loop over the items of an array. -/
def arrayRound (value : Parser Json) (items : List Json) : Parser (List Json ⊕ Json) := do
  whitespace bytes
  let item ← value
  let items := items ++ [item]
  whitespace bytes
  let next ← peek bytes
  if next = some (byte ',') then do
    advance 1
    pure (.inl items)
  else if next = some (byte ']') then do
    advance 1
    pure (.inr (.array items))
  else error "expected ',' or ']'"

/-- An array at a depth, whose items are read by `value`. -/
def array (depth : ℕ) (value : Parser Json) : Parser Json :=
  if depth > maxJsonDepth then error "nesting too deep"
  else do
    advance 1
    whitespace bytes
    let next ← peek bytes
    if next = some (byte ']') then do
      advance 1
      pure (.array [])
    else Fallible.loop .panic (bytes.length + 1) [] (arrayRound bytes value)

/-- One round of the loop over the members of an object. -/
def objectRound (value : Parser Json) (members : List (String × Json)) :
    Parser (List (String × Json) ⊕ Json) := do
  whitespace bytes
  let next ← peek bytes
  if next ≠ some (byte '"') then error "expected a string key"
  else do
    let keyOffset ← Fallible.get
    let key ← string bytes
    if members.any (·.1 == key) then
      Fallible.fail (.error ⟨keyOffset, "duplicate object key"⟩)
    else do
      whitespace bytes
      let next ← peek bytes
      if next ≠ some (byte ':') then error "expected ':'"
      else do
        advance 1
        whitespace bytes
        let item ← value
        let members := members ++ [(key, item)]
        whitespace bytes
        let next ← peek bytes
        if next = some (byte ',') then do
          advance 1
          pure (.inl members)
        else if next = some (byte '}') then do
          advance 1
          pure (.inr (.object members))
        else error "expected ',' or '\x7d'"

/-- An object at a depth, whose values are read by `value`. -/
def object (depth : ℕ) (value : Parser Json) : Parser Json :=
  if depth > maxJsonDepth then error "nesting too deep"
  else do
    advance 1
    whitespace bytes
    let next ← peek bytes
    if next = some (byte '}') then do
      advance 1
      pure (.object [])
    else Fallible.loop .panic (bytes.length + 1) [] (objectRound bytes value)

/-- A value at a depth, with a bound on the calls it may nest. -/
def value : ℕ → ℕ → Parser Json
  | 0, _ => Fallible.fail .panic
  | calls + 1, depth => do
    match ← peek bytes with
    | none => error "expected a value"
    | some next =>
      if next = byte 'n' then literal bytes "null" .null
      else if next = byte 't' then literal bytes "true" (.bool true)
      else if next = byte 'f' then literal bytes "false" (.bool false)
      else if next = byte '"' then do
        let text ← string bytes
        pure (.string text)
      else if next = byte '[' then array bytes (depth + 1) (value calls (depth + 1))
      else if next = byte '{' then object bytes (depth + 1) (value calls (depth + 1))
      else if next = byte '-' ∨ isDigit next then number bytes
      else error "expected a value"

/-- The whole input. -/
def document : Parser Json := do
  whitespace bytes
  let value ← value bytes (maxJsonDepth + 1) 0
  whitespace bytes
  let position ← Fallible.get
  if position ≠ bytes.length then error "trailing content" else pure value

end

end Parser

/-- Parse a text. -/
def parse (input : String) : Outcome JsonSyntaxError Json :=
  if Str.len input > maxJsonBytes then .raise ⟨0, "input too large"⟩
  else ((Parser.document (Str.asBytes input)).run 0).1

/-! ### Writing -/

/-- A hexadecimal digit in lower case. -/
def hexChar (digit : ℕ) : Char :=
  if digit < 10 then Char.ofNat ('0'.toNat + digit) else Char.ofNat ('a'.toNat + (digit - 10))

/-- The last four hexadecimal digits of a number. -/
def hexText (n : ℕ) : String :=
  String.ofList [hexChar (n / 0x1000 % 16), hexChar (n / 0x100 % 16), hexChar (n / 0x10 % 16),
    hexChar (n % 16)]

def writeChar (c : Char) : String :=
  if c = '"' then "\\\""
  else if c = '\\' then "\\\\"
  else if c = '\n' then "\\n"
  else if c = '\r' then "\\r"
  else if c = '\t' then "\\t"
  else if c.toNat < 0x20 then "\\u" ++ hexText c.toNat
  else String.singleton c

def writeString (text : String) : String :=
  "\"" ++ String.join (text.toList.map writeChar) ++ "\""

mutual

/-- Write a value as compact JSON with members in the given order. -/
def write : Json → String
  | .null => "null"
  | .bool true => "true"
  | .bool false => "false"
  | .number text => text
  | .string text => writeString text
  | .array items => "[" ++ writeItems items ++ "]"
  | .object members => "\x7b" ++ writeMembers members ++ "\x7d"

/-- The items of an array, with commas between them. -/
def writeItems : List Json → String
  | [] => ""
  | [item] => write item
  | item :: items => write item ++ "," ++ writeItems items

/-- The members of an object, with commas between them. -/
def writeMembers : List (String × Json) → String
  | [] => ""
  | [(key, item)] => writeString key ++ ":" ++ write item
  | (key, item) :: members => writeString key ++ ":" ++ write item ++ "," ++ writeMembers members

end

/-- JSON number text for an unsigned integer. -/
def unsigned (value : UInt64) : Json := .number (toString value.toNat)

end Json

end NNIS
