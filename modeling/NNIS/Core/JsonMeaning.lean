import NNIS.Core.JsonStrings

/-!
# Derivations with their meaning

The relations between a text and what it denotes: a value, the items of an array, a member and the
members of an object. Each is a derivation together with the meaning of its tree, built and taken
apart at once.

## Main definitions

* `Json.Grammar.Means`, `Json.Grammar.ItemsMean`, `Json.Grammar.MemberMeans`,
  `Json.Grammar.MembersMean`.

## Main results

* `Json.Grammar.ItemsMean.cases`, `Json.Grammar.MemberMeans.cases`,
  `Json.Grammar.MembersMean.cases`.
* `Json.Grammar.Value.head` — the first character of a value.
-/

set_option autoImplicit false

namespace NNIS

namespace Json

namespace Grammar

/-! ### Derivations with their meaning -/

/-- A text starts with a value. -/
def Means (t : List Char) (value : Json) (r : List Char) : Prop :=
  ∃ tree, Value t tree r ∧ Denotes tree value

/-- A text starts with the items of an array, up to its end. -/
def ItemsMean (t : List Char) (values : List Json) (r : List Char) : Prop :=
  ∃ items, Items t items r ∧ List.Forall₂ Denotes items values

/-- The text of a member denotes a name and a value. -/
def MemberMeans (t : List Char) (value : String × Json) (r : List Char) : Prop :=
  ∃ member, Member t member r ∧ Decodes member.1 value.1.toList ∧ Denotes member.2 value.2

/-- A text starts with the members of an object, up to its end. -/
def MembersMean (t : List Char) (values : List (String × Json)) (r : List Char) : Prop :=
  ∃ members, Members t members r ∧
    List.Forall₂ (fun member value => Decodes member.1 value.1.toList) members values ∧
    List.Forall₂ (fun member value => Denotes member.2 value.2) members values

section

variable {t t₁ t₂ t₃ r : List Char} {value : Json} {values : List Json}
  {member : String × Json} {members : List (String × Json)}

theorem ItemsMean.last (hbefore : Ws t t₁) (hvalue : Means t₁ value t₂)
    (hafter : Ws t₂ (']' :: r)) : ItemsMean t [value] r := by
  obtain ⟨tree, hvalue, hdenotes⟩ := hvalue
  exact ⟨[tree], .last hbefore hvalue hafter, .cons hdenotes .nil⟩

theorem ItemsMean.cons (hbefore : Ws t t₁) (hvalue : Means t₁ value t₂)
    (hafter : Ws t₂ (',' :: t₃)) (hvalues : ItemsMean t₃ values r) :
    ItemsMean t (value :: values) r := by
  obtain ⟨tree, hvalue, hdenotes⟩ := hvalue
  obtain ⟨trees, hitems, hall⟩ := hvalues
  exact ⟨tree :: trees, .cons hbefore hvalue hafter hitems, .cons hdenotes hall⟩

theorem ItemsMean.cases (h : ItemsMean t values r) : ∃ t₁ t₂ value values',
    values = value :: values' ∧ Ws t t₁ ∧ Means t₁ value t₂ ∧
      ((values' = [] ∧ Ws t₂ (']' :: r)) ∨ ∃ t₃, Ws t₂ (',' :: t₃) ∧ ItemsMean t₃ values' r) := by
  obtain ⟨trees, hitems, hall⟩ := h
  cases hitems with
  | last hbefore hitem hafter =>
    obtain ⟨value, values', hdenotes, hnil, rfl⟩ := List.forall₂_cons_left_iff.1 hall
    obtain rfl := List.forall₂_nil_left_iff.1 hnil
    exact ⟨_, _, value, [], rfl, hbefore, ⟨_, hitem, hdenotes⟩, .inl ⟨rfl, hafter⟩⟩
  | cons hbefore hitem hafter hitems =>
    obtain ⟨value, values', hdenotes, hrest, rfl⟩ := List.forall₂_cons_left_iff.1 hall
    exact ⟨_, _, value, values', rfl, hbefore, ⟨_, hitem, hdenotes⟩, .inr ⟨_, hafter, _, hitems,
      hrest⟩⟩

theorem MemberMeans.mk {key : String} {t₄ : List Char}
    (hbefore : Ws t ('"' :: t₁)) (hkey : Chars t₁ key.toList t₂) (hcolon : Ws t₂ (':' :: t₃))
    (hitem : Ws t₃ t₄) (hvalue : Means t₄ value r) : MemberMeans t (key, value) r := by
  obtain ⟨elements, htext, hdecodes⟩ := hkey
  obtain ⟨tree, hvalue, hdenotes⟩ := hvalue
  exact ⟨(elements, tree), .mk hbefore htext hcolon hitem hvalue, hdecodes, hdenotes⟩

theorem MemberMeans.cases (h : MemberMeans t member r) : ∃ t₁ t₂ t₃ t₄, Ws t ('"' :: t₁) ∧
    Chars t₁ member.1.toList t₂ ∧ Ws t₂ (':' :: t₃) ∧ Ws t₃ t₄ ∧ Means t₄ member.2 r := by
  obtain ⟨tree, hmember, hdecodes, hdenotes⟩ := h
  cases hmember with
  | mk hbefore hkey hcolon hitem hvalue =>
    exact ⟨_, _, _, _, hbefore, ⟨_, hkey, hdecodes⟩, hcolon, hitem, _, hvalue, hdenotes⟩

theorem MembersMean.last (hmember : MemberMeans t member t₂) (hafter : Ws t₂ ('\x7d' :: r)) :
    MembersMean t [member] r := by
  obtain ⟨tree, hmember, hdecodes, hdenotes⟩ := hmember
  exact ⟨[tree], .last hmember hafter, .cons hdecodes .nil, .cons hdenotes .nil⟩

theorem MembersMean.cons (hmember : MemberMeans t member t₂) (hafter : Ws t₂ (',' :: t₃))
    (hmembers : MembersMean t₃ members r) : MembersMean t (member :: members) r := by
  obtain ⟨tree, hmember, hdecodes, hdenotes⟩ := hmember
  obtain ⟨trees, hmembers, hkeys, hall⟩ := hmembers
  exact ⟨tree :: trees, .cons hmember hafter hmembers, .cons hdecodes hkeys, .cons hdenotes hall⟩

theorem MembersMean.cases (h : MembersMean t members r) : ∃ t₂ member members',
    members = member :: members' ∧ MemberMeans t member t₂ ∧
      ((members' = [] ∧ Ws t₂ ('\x7d' :: r)) ∨
        ∃ t₃, Ws t₂ (',' :: t₃) ∧ MembersMean t₃ members' r) := by
  obtain ⟨trees, hmembers, hkeys, hall⟩ := h
  cases hmembers with
  | last hmember hafter =>
    obtain ⟨value, values', hdecodes, hnil, rfl⟩ := List.forall₂_cons_left_iff.1 hkeys
    obtain rfl := List.forall₂_nil_left_iff.1 hnil
    obtain ⟨hdenotes, -⟩ := List.forall₂_cons.1 hall
    exact ⟨_, value, [], rfl, ⟨_, hmember, hdecodes, hdenotes⟩, .inl ⟨rfl, hafter⟩⟩
  | cons hmember hafter hmembers =>
    obtain ⟨value, values', hdecodes, hkeys', rfl⟩ := List.forall₂_cons_left_iff.1 hkeys
    obtain ⟨hdenotes, hall'⟩ := List.forall₂_cons.1 hall
    exact ⟨_, value, values', rfl, ⟨_, hmember, hdecodes, hdenotes⟩, .inr ⟨_, hafter, _, hmembers,
      hkeys', hall'⟩⟩

/-- White space in front of items may be skipped before. -/
theorem ItemsMean.ws (hws : Ws t t₁) (h : ItemsMean t₁ values r) : ItemsMean t values r := by
  obtain ⟨_, _, _, _, rfl, hbefore, hvalue, ⟨rfl, hafter⟩ | ⟨_, hafter, hrest⟩⟩ := h.cases
  · exact .last (hws.trans hbefore) hvalue hafter
  · exact .cons (hws.trans hbefore) hvalue hafter hrest

theorem MemberMeans.ws (hws : Ws t t₁) (h : MemberMeans t₁ member r) : MemberMeans t member r := by
  obtain ⟨tree, hmember, hdecodes, hdenotes⟩ := h
  cases hmember with
  | mk hbefore hkey hcolon hitem hvalue =>
    exact ⟨_, .mk (hws.trans hbefore) hkey hcolon hitem hvalue, hdecodes, hdenotes⟩

theorem MembersMean.ws (hws : Ws t t₁) (h : MembersMean t₁ members r) :
    MembersMean t members r := by
  obtain ⟨_, _, _, rfl, hmember, ⟨rfl, hafter⟩ | ⟨_, hafter, hrest⟩⟩ := h.cases
  · exact .last (hmember.ws hws) hafter
  · exact .cons (hmember.ws hws) hafter hrest

/-! ### First characters -/

/-- Characters a value can start with. -/
def isValueStart (c : Char) : Bool :=
  c == 'n' || c == 't' || c == 'f' || c == '"' || c == '[' || c == '\x7b' || c == '-' || isDigit c

theorem IsNumber.head {text : List Char} (h : IsNumber text) :
    ∃ c text', text = c :: text' ∧ (c = '-' ∨ isDigit c = true) := by
  obtain ⟨minus, int, frac, exp, rfl, rfl | rfl, hint, -⟩ := h
  · rcases hint with rfl | ⟨⟨hne, hall⟩, -⟩
    · exact ⟨'0', _, rfl, .inr (by decide)⟩
    · cases int with
      | nil => exact absurd rfl hne
      | cons c int => exact ⟨c, _, rfl, .inr (hall c List.mem_cons_self)⟩
  · exact ⟨'-', _, rfl, .inl rfl⟩

theorem Value.head {tree : Syntax} (h : Value t tree r) :
    ∃ c t', t = c :: t' ∧ isValueStart c = true := by
  cases h with
  | number hnumber =>
    obtain ⟨c, text', rfl, rfl | hc⟩ := hnumber.head
    · exact ⟨'-', _, rfl, by decide⟩
    · exact ⟨c, _, rfl, by simp only [isValueStart, hc, Bool.or_true]⟩
  | _ => exact ⟨_, _, rfl, by decide⟩

theorem Means.head (h : Means t value r) : ∃ c t', t = c :: t' ∧ isValueStart c = true := by
  obtain ⟨tree, hvalue, -⟩ := h
  exact hvalue.head

/-- A value starts with no white space. -/
theorem Means.noHead (h : Means t value r) : NoHead isWhitespace t := by
  obtain ⟨c, t', rfl, hc⟩ := h.head
  have hws : ¬ isWhitespace c = true := by
    intro hws
    simp only [isWhitespace, Bool.or_eq_true, beq_iff_eq] at hws
    rcases hws with ((rfl | rfl) | rfl) | rfl <;> exact absurd hc (by decide)
  exact Bool.eq_false_iff.2 hws

/-- After the white space in front of them, items start with the first one. -/
theorem ItemsMean.skip (h : ItemsMean t values r) : ∃ t₁, Ws t t₁ ∧ NoHead isWhitespace t₁ ∧
    t₁.head? ≠ some ']' ∧ ItemsMean t₁ values r := by
  obtain ⟨t₁, t₂, value, values', rfl, hbefore, hvalue, hend⟩ := h.cases
  refine ⟨t₁, hbefore, hvalue.noHead, ?_, ?_⟩
  · obtain ⟨c, t', rfl, hc⟩ := hvalue.head
    rintro heq
    rw [Option.some.inj heq] at hc
    exact absurd hc (by decide)
  · rcases hend with ⟨rfl, hafter⟩ | ⟨t₃, hafter, hrest⟩
    · exact .last .nil hvalue hafter
    · exact .cons .nil hvalue hafter hrest

/-- After the white space in front of them, members start with a name. -/
theorem MembersMean.skip (h : MembersMean t members r) :
    ∃ t₁, Ws t ('"' :: t₁) ∧ MembersMean ('"' :: t₁) members r := by
  obtain ⟨t₂, ⟨key, value⟩, members', rfl, hmember, hend⟩ := h.cases
  obtain ⟨t₁, _, _, _, hbefore, hkey, hcolon, hitem, hvalue⟩ := hmember.cases
  have hmember' : MemberMeans ('"' :: t₁) (key, value) t₂ := .mk .nil hkey hcolon hitem hvalue
  refine ⟨t₁, hbefore, ?_⟩
  rcases hend with ⟨rfl, hafter⟩ | ⟨t₃, hafter, hrest⟩
  · exact .last hmember' hafter
  · exact .cons hmember' hafter hrest

/-! ### Lengths -/

mutual

theorem Value.length_lt {t r : List Char} {tree : Syntax} :
    Value t tree r → r.length < t.length
  | .null | .litTrue | .litFalse => by simp only [List.length_cons]; omega
  | .number h => by
    obtain ⟨c, text', rfl, -⟩ := h.head
    rw [List.length_append, List.length_cons]
    omega
  | .string h => Nat.lt_succ_of_lt h.length_lt
  | .emptyArray h => Nat.lt_succ_of_le (Nat.le_of_lt (Nat.lt_of_succ_le h.length_le))
  | .array h => Nat.lt_succ_of_lt (Items.length_lt h)
  | .emptyObject h => Nat.lt_succ_of_le (Nat.le_of_lt (Nat.lt_of_succ_le h.length_le))
  | .object h => Nat.lt_succ_of_lt (Members.length_lt h)

theorem Items.length_lt {t r : List Char} {items : List Syntax} :
    Items t items r → r.length < t.length
  | .last hbefore hitem hafter => by
    have := hbefore.length_le
    have := Value.length_lt hitem
    have := hafter.length_le
    rw [List.length_cons] at this
    omega
  | .cons hbefore hitem hafter hitems => by
    have := hbefore.length_le
    have := Value.length_lt hitem
    have := hafter.length_le
    have := Items.length_lt hitems
    simp only [List.length_cons] at *
    omega

theorem Members.length_lt {t r : List Char} {members : List (List Element × Syntax)} :
    Members t members r → r.length < t.length
  | .last hmember hafter => by
    have := Member.length_lt hmember
    have := hafter.length_le
    rw [List.length_cons] at this
    omega
  | .cons hmember hafter hmembers => by
    have := Member.length_lt hmember
    have := hafter.length_le
    have := Members.length_lt hmembers
    simp only [List.length_cons] at *
    omega

theorem Member.length_lt {t r : List Char} {member : List Element × Syntax} :
    Member t member r → r.length < t.length
  | .mk hbefore hkey hcolon hitem h => by
    have := hbefore.length_le
    have := hkey.length_lt
    have := hcolon.length_le
    have := hitem.length_le
    have := Value.length_lt h
    simp only [List.length_cons] at *
    omega

end

theorem Means.length_lt {t r : List Char} {value : Json} : Means t value r → r.length < t.length
  | ⟨_, h, _⟩ => h.length_lt

theorem MemberMeans.length_lt {t r : List Char} {member : String × Json} :
    MemberMeans t member r → r.length < t.length
  | ⟨_, h, _⟩ => h.length_lt

end

end Grammar

end Json

end NNIS
