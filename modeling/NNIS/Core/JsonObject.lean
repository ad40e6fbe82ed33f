import NNIS.Core.JsonWrite
import NNIS.Semantics.Checked
import NNIS.Text.Str

/-!
# Reading objects

The readers that `nnis-core/src/adapter_evidence.rs` and `nnis-core/src/dsv41_campaign_json.rs` both
have: the members of an object are taken out by name, one after the other, and an object has been
read when no member is left. The errors of a reader are those of the record it reads.

## Main definitions

* `FieldErrors` — the errors that the readers of a record report.
* `JsonObject.Reader`, `JsonObject.take`, `JsonObject.read`, `JsonObject.finish`.
* `JsonObject.asString`, `JsonObject.asBool`, `JsonObject.asU64`, `JsonObject.asU32`,
  `JsonObject.asArray`, `JsonObject.asObject`, `JsonObject.orNull`.

## Main results

* `JsonObject.run_read_bind` — a member that is the first one left is read in place.
* `JsonObject.asU64_unsigned`, `JsonObject.asU32_unsigned`, `JsonObject.arrayOf_map` — encoded
  values are decoded.
-/

set_option autoImplicit false

namespace NNIS

/-- The errors of the readers of a record. -/
class FieldErrors (ε : Type) where
  missingField : String → ε
  unknownField : String → ε
  wrongType : String → ε
  invalidInteger : String → ε

namespace JsonObject

open FieldErrors

variable {ε α β : Type}

/-- A computation on the members of an object that have not been taken yet. -/
abbrev Reader (ε α : Type) := Fallible (List (String × Json)) (Stop ε) α

/-- The value of the first member of a name, and the other members. -/
def remove (field : String) : List (String × Json) → Option (Json × List (String × Json))
  | [] => none
  | (key, value) :: members =>
    if key = field then some (value, members)
    else (remove field members).map fun (found, rest) => (found, (key, value) :: rest)

section

variable [FieldErrors ε]

/-! ### Members -/

def take (field : String) : Reader ε Json := do
  let members ← Fallible.get
  match remove field members with
  | none => Fallible.fail (.error (missingField field))
  | some (value, rest) => do
    Fallible.modify fun _ => rest
    pure value

/-- Take a member and decode its value. -/
def read (field : String) (decode : Json → Outcome ε α) : Reader ε α := do
  let value ← take field
  Fallible.ofExcept (decode value)

def finish : Reader ε PUnit := do
  match ← Fallible.get with
  | [] => pure ⟨⟩
  | (field, _) :: _ => Fallible.fail (.error (unknownField field))

/-! ### Values -/

def asString (field : String) : Json → Outcome ε String
  | .string text => .ok text
  | _ => .raise (wrongType field)

def asBool (field : String) : Json → Outcome ε Bool
  | .bool value => .ok value
  | _ => .raise (wrongType field)

def asU64 (field : String) : Json → Outcome ε UInt64
  | .number text => do
    .require (text.toList.all Char.isDigit = true) (invalidInteger field)
    let value ← .okOr (Str.parseUnsigned UInt64.size text) (invalidInteger field)
    pure (UInt64.ofNat value)
  | _ => .raise (wrongType field)

def asU32 (field : String) (value : Json) : Outcome ε UInt32 := do
  let value ← asU64 field value
  if value.toNat < UInt32.size then pure (UInt32.ofNat value.toNat)
  else .raise (invalidInteger field)

def asArray (field : String) : Json → Outcome ε (List Json)
  | .array items => .ok items
  | _ => .raise (wrongType field)

/-- Read the members of an object. -/
def asObject (field : String) (reader : Reader ε α) : Json → Outcome ε α
  | .object members => (reader.run members).1
  | _ => .raise (wrongType field)

/-- Decode a value that may be `null`. -/
def orNull (decode : Json → Outcome ε α) : Json → Outcome ε (Option α)
  | .null => .ok none
  | value => do
    let value ← decode value
    pure (some value)

/-- Decode the items of an array. -/
def arrayOf (field : String) (item : Json → Outcome ε α) (value : Json) : Outcome ε (List α) := do
  let items ← asArray field value
  items.mapM item

/-! ### Members by kind -/

def string (field : String) : Reader ε String := read field (asString field)

def bool (field : String) : Reader ε Bool := read field (asBool field)

def u64 (field : String) : Reader ε UInt64 := read field (asU64 field)

def u32 (field : String) : Reader ε UInt32 := read field (asU32 field)

def object (field : String) (reader : Reader ε α) : Reader ε α :=
  read field (asObject field reader)

def array (field : String) (item : Json → Outcome ε α) : Reader ε (List α) :=
  read field (arrayOf field item)

/-! ### Encoded values -/

theorem asU64_unsigned (field : String) (value : UInt64) :
    (asU64 field (Json.unsigned value) : Outcome ε UInt64) = .ok value := by
  have hdigits : (toString value.toNat).toList.all Char.isDigit = true := by
    rw [Nat.toString_eq_repr, Nat.toList_repr]
    exact Decimal.all_isDigit_toDigits _
  simp only [asU64, Json.unsigned, Str.parseUnsigned_toString value.toNat_lt,
    Outcome.require_of _ hdigits]
  exact congrArg _ (UInt64.ofNat_toNat)

theorem asU32_unsigned (field : String) (value : UInt32) :
    (asU32 field (Json.unsigned value.toUInt64) : Outcome ε UInt32) = .ok value := by
  have hlt : value.toUInt64.toNat < UInt32.size := value.toNat_lt
  simp only [asU32, asU64_unsigned, Except.ok_bind, if_pos hlt]
  exact congrArg _ (UInt32.ofNat_toNat)

theorem arrayOf_map {field : String} {decode : Json → Outcome ε α} {encode : α → Json}
    {items : List α} (h : ∀ item ∈ items, decode (encode item) = .ok item) :
    arrayOf field decode (.array (items.map encode)) = .ok items := by
  have hmap : (items.map encode).mapM decode = items.mapM fun item => decode (encode item) := by
    rw [List.mapM_map]
    rfl
  simp only [arrayOf, asArray, Except.ok_bind, hmap, mapM_eq_ok h, List.map_id']

/-! ### Encoded objects -/

theorem asObject_object (field : String) (reader : Reader ε α) (members : List (String × Json)) :
    asObject field reader (.object members) = (reader.run members).1 := rfl

theorem run_take (field : String) (value : Json) (members : List (String × Json)) :
    (take field : Reader ε Json).run ((field, value) :: members) = (.ok value, members) := by
  simp only [take, Fallible.run_bind, Fallible.run_get, remove, if_pos, Fallible.run_modify,
    Fallible.run_pure]

/-- A member that is the first one left is decoded in place. -/
theorem run_read (field : String) (decode : Json → Outcome ε α) (value : Json)
    (members : List (String × Json)) :
    (read field decode).run ((field, value) :: members) = (decode value, members) :=
  Fallible.run_bind_ok (run_take field value members) _

theorem run_read_bind {field : String} {decode : Json → Outcome ε α} {value : Json} {a : α}
    (h : decode value = .ok a) (next : α → Reader ε β) (members : List (String × Json)) :
    (read field decode >>= next).run ((field, value) :: members) = (next a).run members :=
  Fallible.run_bind_ok (h ▸ run_read field decode value members) next

section

variable (field : String) (members : List (String × Json))

@[simp] theorem run_string_bind (text : String) (next : String → Reader ε β) :
    (string field >>= next).run ((field, .string text) :: members) = (next text).run members :=
  run_read_bind (by rfl) next members

@[simp] theorem run_bool_bind (value : Bool) (next : Bool → Reader ε β) :
    (bool field >>= next).run ((field, .bool value) :: members) = (next value).run members :=
  run_read_bind (by rfl) next members

@[simp] theorem run_u64_bind (value : UInt64) (next : UInt64 → Reader ε β) :
    (u64 field >>= next).run ((field, .unsigned value) :: members) = (next value).run members :=
  run_read_bind (asU64_unsigned field value) next members

@[simp] theorem run_u32_bind (value : UInt32) (next : UInt32 → Reader ε β) :
    (u32 field >>= next).run ((field, .unsigned value.toUInt64) :: members) =
      (next value).run members :=
  run_read_bind (asU32_unsigned field value) next members

end

@[simp] theorem run_finish_bind (next : PUnit → Reader ε β) :
    (finish >>= next).run [] = (next ⟨⟩).run [] := rfl

end

end JsonObject

end NNIS
