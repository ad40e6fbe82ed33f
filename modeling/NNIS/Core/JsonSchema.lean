import Mathlib.Data.List.Nodup
import Mathlib.Data.List.Perm.Basic
import NNIS.Core.JsonObject

/-!
# Closed schemas

A reader that takes a fixed list of members and then finds none left accepts an object only if its
members are these, each of them once. Adding a member to such an object, or removing one, therefore
leads out of what the reader accepts; and so it is with the objects inside, as far down as the
schema describes them.

## Main definitions

* `Json.FieldChange` — one member of one object is added or removed, at any level.
* `Json.Rigid` — a condition that no such change keeps.
* `Json.IsScalar`, `Json.ArrayOf`, `Json.ObjectOf`, `Json.NullOr` — conditions on values.
* `JsonObject.Takes`, `JsonObject.Accepts` — what a reader takes and a decoder accepts.

## Main results

* `Json.Rigid.scalar`, `Json.Rigid.array`, `Json.Rigid.object`, `Json.Rigid.nullOr`.
* `JsonObject.Takes.read`, `JsonObject.Accepts.asObject` — what a reader takes describes what it
  accepts.
-/

set_option autoImplicit false

namespace NNIS

namespace Json

/-- The second value is the first one with one member more or less in one of its objects. -/
inductive FieldChange : Json → Json → Prop
  | added (before after : List (String × Json)) (member : String × Json) :
    FieldChange (.object (before ++ after)) (.object (before ++ member :: after))
  | removed (before after : List (String × Json)) (member : String × Json) :
    FieldChange (.object (before ++ member :: after)) (.object (before ++ after))
  | inMember (before after : List (String × Json)) (name : String) {value value' : Json}
      (h : FieldChange value value') :
    FieldChange (.object (before ++ (name, value) :: after))
      (.object (before ++ (name, value') :: after))
  | inItem (before after : List Json) {value value' : Json} (h : FieldChange value value') :
    FieldChange (.array (before ++ value :: after)) (.array (before ++ value' :: after))

/-- A condition that a change of a field does not keep. -/
def Rigid (P : Json → Prop) : Prop :=
  ∀ value value', FieldChange value value' → P value → ¬ P value'

/-- A value that is neither an array nor an object. -/
def IsScalar : Json → Prop
  | .array _ | .object _ => False
  | _ => True

/-- An array whose items satisfy a condition. -/
def ArrayOf (P : Json → Prop) : Json → Prop
  | .array items => ∀ item ∈ items, P item
  | _ => False

/-- `null`, or a value that satisfies a condition. -/
def NullOr (P : Json → Prop) (value : Json) : Prop := value = .null ∨ P value

/-- The members of an object are those of a list of names, in any order, and each satisfies the
condition of its name. -/
def MembersMatch (fields : List (String × (Json → Prop))) (members : List (String × Json)) : Prop :=
  ∃ members', members.Perm members' ∧
    List.Forall₂ (fun member field => member.1 = field.1 ∧ field.2 member.2) members' fields

/-- An object whose members match a list of fields. -/
def ObjectOf (fields : List (String × (Json → Prop))) : Json → Prop
  | .object members => MembersMatch fields members
  | _ => False

namespace MembersMatch

variable {fields : List (String × (Json → Prop))} {members : List (String × Json)}

theorem length_eq (h : MembersMatch fields members) : members.length = fields.length := by
  obtain ⟨members', hperm, hmatch⟩ := h
  rw [hperm.length_eq, hmatch.length_eq]

/-- A member satisfies the condition of its name. -/
theorem of_mem (h : MembersMatch fields members) {name : String} {value : Json}
    (hmem : (name, value) ∈ members) : ∃ P, (name, P) ∈ fields ∧ P value := by
  obtain ⟨members', hperm, hmatch⟩ := h
  have hmem' := hperm.mem_iff.1 hmem
  clear hperm
  induction hmatch with
  | nil => exact absurd hmem' List.not_mem_nil
  | @cons member field members' fields hfield hrest ih =>
    rcases List.mem_cons.1 hmem' with rfl | hmem'
    · exact ⟨field.2, List.mem_cons.2 (.inl (Prod.ext hfield.1 rfl)), hfield.2⟩
    · obtain ⟨P, hP, hvalue⟩ := ih hmem'
      exact ⟨P, List.mem_cons_of_mem _ hP, hvalue⟩

end MembersMatch

/-- Fields of distinct names are determined by their names. -/
private theorem eq_of_nodup {fields : List (String × (Json → Prop))}
    (hnames : (fields.map Prod.fst).Nodup) {name : String} {P Q : Json → Prop}
    (hP : (name, P) ∈ fields) (hQ : (name, Q) ∈ fields) : P = Q :=
  congrArg Prod.snd (List.inj_on_of_nodup_map hnames hP hQ rfl)

namespace Rigid

variable {P : Json → Prop}

@[simp] theorem scalar : Rigid IsScalar := by
  intro value value' hchange
  cases hchange <;> exact fun h => h.elim

@[simp] theorem nullOr (h : Rigid P) : Rigid (NullOr P) := by
  intro value value' hchange hvalue hvalue'
  have hne : value ≠ .null := by
    cases hchange <;> exact nofun
  have hne' : value' ≠ .null := by
    cases hchange <;> exact nofun
  exact h value value' hchange (hvalue.resolve_left hne) (hvalue'.resolve_left hne')

@[simp] theorem array (h : Rigid P) : Rigid (ArrayOf P) := by
  intro value value' hchange hvalue hvalue'
  cases hchange with
  | inItem before after hitem =>
    exact h _ _ hitem (hvalue _ (List.mem_append_cons_self ..))
      (hvalue' _ (List.mem_append_cons_self ..))
  | added | removed | inMember => exact hvalue

theorem object {fields : List (String × (Json → Prop))} (hnames : (fields.map Prod.fst).Nodup)
    (h : ∀ field ∈ fields, Rigid field.2) : Rigid (ObjectOf fields) := by
  intro value value' hchange hvalue hvalue'
  cases hchange with
  | added before after member | removed before after member =>
    have hlength := (MembersMatch.length_eq hvalue).trans (MembersMatch.length_eq hvalue').symm
    simp only [List.length_append, List.length_cons] at hlength
    omega
  | inMember before after name hmember =>
    obtain ⟨Q, hQ, hQvalue⟩ := MembersMatch.of_mem hvalue (List.mem_append_cons_self ..)
    obtain ⟨Q', hQ', hQvalue'⟩ := MembersMatch.of_mem hvalue' (List.mem_append_cons_self ..)
    obtain rfl := eq_of_nodup hnames hQ hQ'
    exact h _ hQ _ _ hmember hQvalue hQvalue'
  | inItem => exact hvalue

end Rigid

end Json

namespace JsonObject

open Json

variable {ε α β : Type}

/-- A reader returns on an object only if its members are those of a list of fields; on any other
object it fails with an error. -/
def Takes (reader : Reader ε α) (fields : List (String × (Json → Prop))) : Prop :=
  ∀ members, Outcome.Ensures (reader.run members).1 fun _ => MembersMatch fields members

/-- A decoder returns only on values that satisfy a condition; on any other value it fails with an
error. -/
def Accepts (decode : Json → Outcome ε α) (P : Json → Prop) : Prop :=
  ∀ value, (decode value).Ensures fun _ => P value

theorem perm_of_remove {field : String} {members rest : List (String × Json)} {value : Json}
    (h : remove field members = some (value, rest)) : members.Perm ((field, value) :: rest) := by
  induction members generalizing value rest with
  | nil => exact nomatch h
  | cons member members ih =>
    obtain ⟨key, first⟩ := member
    rw [remove] at h
    split_ifs at h with hkey
    · cases h
      rw [hkey]
    · obtain ⟨⟨found, rest'⟩, hfound, heq⟩ := Option.map_eq_some_iff.1 h
      cases heq
      exact ((ih hfound).cons _).trans (.swap ..)

variable {decode : Json → Outcome ε α} {P : Json → Prop} {fields : List (String × (Json → Prop))}

/-! ### Decoders -/

namespace Accepts

/-- What follows a decoder does not change what it accepts. -/
theorem bind (h : Accepts decode P) {next : α → Outcome ε β} (hnext : ∀ a, (next a).Safe) :
    Accepts (fun value => decode value >>= next) P :=
  fun value => (h value).bind fun a hvalue => .of_safe (hnext a) fun _ => hvalue

theorem orNull (h : Accepts decode P) : Accepts (orNull decode) (NullOr P) := by
  intro value
  cases value with
  | null => exact .inl rfl
  | bool | number | string | array | object =>
    exact (h _).bind fun a hvalue => .inr hvalue

variable [FieldErrors ε]

theorem string (field : String) : Accepts (asString field : Json → Outcome ε String) IsScalar := by
  intro value
  cases value <;> trivial

theorem bool (field : String) : Accepts (asBool field : Json → Outcome ε Bool) IsScalar := by
  intro value
  cases value <;> trivial

theorem u64 (field : String) : Accepts (asU64 field : Json → Outcome ε UInt64) IsScalar := by
  intro value
  cases value with
  | number text =>
    have hsafe : (asU64 field (.number text) : Outcome ε UInt64).Safe :=
      (Outcome.Safe.require _ _).bind fun _ _ => (Outcome.Safe.okOr _ _).bind fun _ _ => .pure _
    exact .of_safe hsafe fun _ => trivial
  | null | bool | string | array | object => trivial

theorem u32 (field : String) : Accepts (asU32 field : Json → Outcome ε UInt32) IsScalar := by
  refine (u64 field).bind fun value => ?_
  split_ifs
  · exact .pure _
  · exact .raise _

theorem arrayOf (h : Accepts decode P) (field : String) :
    Accepts (arrayOf field decode) (ArrayOf P) := by
  intro value
  cases value with
  | array items =>
    have hmap : (items.mapM decode).Ensures fun _ => ∀ item ∈ items, P item := by
      induction items with
      | nil => exact List.forall_mem_nil _
      | cons item items ih =>
        rw [List.mapM_cons]
        exact (h item).bind fun _ hitem => ih.bind fun _ hitems =>
          List.forall_mem_cons.2 ⟨hitem, hitems⟩
    exact hmap
  | null | bool | number | string | object => trivial

theorem asObject {reader : Reader ε α} (h : Takes reader fields) (label : String) :
    Accepts (asObject label reader) (ObjectOf fields) := by
  intro value
  cases value with
  | object members => exact h members
  | null | bool | number | string | array => trivial

end Accepts

/-! ### Readers -/

namespace Takes

theorem ofExcept {result : Outcome ε α} (hresult : result.Safe) {next : α → Reader ε β}
    (h : ∀ a, Takes (next a) fields) : Takes (Fallible.ofExcept result >>= next) fields := by
  intro members
  match result, hresult with
  | .ok a, _ => exact h a members
  | .error (.error _), _ => trivial
  | .error .panic, hresult => exact (hresult rfl).elim

variable [FieldErrors ε]

/-- A member that is taken is a field. -/
theorem read (hdecode : Accepts decode P) {field : String} {next : α → Reader ε β}
    (h : ∀ a, Takes (next a) fields) :
    Takes (JsonObject.read field decode >>= next) ((field, P) :: fields) := by
  intro members
  rw [JsonObject.read, bind_assoc, take, bind_assoc, Fallible.run_bind_ok (Fallible.run_get _)]
  rcases hremove : remove field members with _ | ⟨value, members'⟩
  · trivial
  · simp only [bind_assoc, Fallible.run_bind_ok (Fallible.run_modify _ _), pure_bind]
    have hvalue := hdecode value
    rcases hresult : decode value with (e | _) | a
    · trivial
    · rw [hresult] at hvalue
      exact hvalue
    · rw [Fallible.ofExcept_ok_bind]
      have hrest := h a members'
      rcases hrun : ((next a).run members').1 with (e | _) | b
      · trivial
      · rw [hrun] at hrest
        exact hrest
      · obtain ⟨matched, hperm, hmatch⟩ := hrest.of_ok hrun
        exact ⟨(field, value) :: matched, (perm_of_remove hremove).trans (hperm.cons _),
          .cons ⟨rfl, hvalue.of_ok hresult⟩ hmatch⟩

theorem string {field : String} {next : String → Reader ε β} (h : ∀ a, Takes (next a) fields) :
    Takes (JsonObject.string field >>= next) ((field, IsScalar) :: fields) :=
  read (Accepts.string field) h

theorem bool {field : String} {next : Bool → Reader ε β} (h : ∀ a, Takes (next a) fields) :
    Takes (JsonObject.bool field >>= next) ((field, IsScalar) :: fields) :=
  read (Accepts.bool field) h

theorem u64 {field : String} {next : UInt64 → Reader ε β} (h : ∀ a, Takes (next a) fields) :
    Takes (JsonObject.u64 field >>= next) ((field, IsScalar) :: fields) :=
  read (Accepts.u64 field) h

theorem u32 {field : String} {next : UInt32 → Reader ε β} (h : ∀ a, Takes (next a) fields) :
    Takes (JsonObject.u32 field >>= next) ((field, IsScalar) :: fields) :=
  read (Accepts.u32 field) h

/-- The fields of an object that is a member are fields of that member. -/
theorem object {reader : Reader ε α} {inner : List (String × (Json → Prop))}
    (hreader : Takes reader inner) {field : String} {next : α → Reader ε β}
    (h : ∀ a, Takes (next a) fields) :
    Takes (JsonObject.object field reader >>= next) ((field, ObjectOf inner) :: fields) :=
  read (.asObject hreader field) h

theorem array (hdecode : Accepts decode P) {field : String} {next : List α → Reader ε β}
    (h : ∀ a, Takes (next a) fields) :
    Takes (JsonObject.array field decode >>= next) ((field, ArrayOf P) :: fields) :=
  read (.arrayOf hdecode field) h

theorem finish (a : α) : Takes (JsonObject.finish >>= fun _ => pure a : Reader ε α) [] := by
  intro members
  cases members with
  | nil => exact ⟨[], .nil, .nil⟩
  | cons member members => trivial

end Takes

end JsonObject

end NNIS
