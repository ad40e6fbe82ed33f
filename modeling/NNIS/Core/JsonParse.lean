import NNIS.Core.JsonMeaning

/-!
# The parser accepts the texts of the grammar

A value, the items of an array and the members of an object are read with their derivation and its
meaning. The induction is on the bound on nested calls: a level is correct if the level below it
is, and the loops over items and members are treated by invariants that complete the derivation of
the part that was read by any derivation of the rest.

The parser does not panic. It accepts a text exactly if the text is short enough and derivable, its
surrogates are paired, no object of the value has two members of one name and the value is not
nested too deeply; it then returns the value that the derivation denotes.

## Main definitions

* `Json.Parser.ReadsSound`, `Json.Parser.ReadsComplete` — the two triples of a parser of values.

## Main results

* `Json.Parser.value_sound`, `Json.Parser.value_complete`.
* `Json.parse_safe`, `Json.parse_eq_ok_iff`, `Json.parse_correct`.
-/

set_option autoImplicit false

namespace NNIS

namespace Json

namespace Parser

open Utf8 Grammar

variable {bytes : List UInt8} {rest : List Char} {depth : ℕ} {reader : Parser Json}

/-- A value that is not nested too deeply and has no object with two members of one name. -/
def Admissible (depth : ℕ) (value : Json) : Prop := NestedWithin depth value ∧ DistinctKeys value

/-- What the parser reads is an admissible value. -/
def ReadsSound (bytes : List UInt8) (depth : ℕ) (reader : Parser Json) : Prop :=
  ∀ rest, Reads bytes IsSyntaxError rest reader fun value r =>
    Means rest value r ∧ Admissible depth value ∧ r.length < rest.length

/-- Admissible values are read, if the text does not go on as a number could. -/
def ReadsComplete (bytes : List UInt8) (depth : ℕ) (reader : Parser Json) : Prop :=
  ∀ rest value r, Means rest value r → Admissible depth value → NoHead isNumberTail r →
    Reads bytes Never rest reader fun value' r' => value' = value ∧ r' = r

/-! ### Arrays -/

/-- A round reads an item in front of other items, or the last one. -/
theorem arrayRound_sound (h : ReadsSound bytes depth reader) (items : List Json) :
    Reads bytes IsSyntaxError rest (arrayRound bytes reader items) fun x r =>
      (∃ item, Admissible depth item ∧ r.length < rest.length ∧ x.elim
        (fun items' => items' = items ++ [item] ∧
          ∀ values r', ItemsMean r values r' → ItemsMean rest (item :: values) r')
        fun value => value = .array (items ++ [item]) ∧ ItemsMean rest [item] r) := by
  refine Reads.whitespace.bind fun _ t₁ hbefore => (h t₁).bind fun item t₂ ⟨hitem, hadm, hlt⟩ =>
    Reads.whitespace.bind fun _ t₃ hafter => .peek_bind ?_
  have hle := hbefore.length_le
  have hle' := hafter.length_le
  refine .ite (fun hc => ?_) fun _ => .ite (fun hc => ?_) fun _ => .error _
  · obtain ⟨r, rfl⟩ := (eq_byte_iff (by decide)).1 hc
    rw [List.length_cons] at hle'
    exact .advance_bind (by decide) (.pure ⟨item, hadm, by omega, rfl, fun values r' hvalues =>
      .cons hbefore hitem hafter hvalues⟩)
  · obtain ⟨r, rfl⟩ := (eq_byte_iff (by decide)).1 hc
    rw [List.length_cons] at hle'
    exact .advance_bind (by decide) (.pure ⟨item, hadm, by omega, rfl, .last hbefore hitem hafter⟩)

/-- The loop over items reads the items of an array. -/
theorem arrayLoop_sound (h : ReadsSound bytes depth reader) :
    Reads bytes IsSyntaxError rest
      (Fallible.loop .panic (bytes.length + 1) [] (arrayRound bytes reader)) fun value r =>
        ∃ items, value = .array items ∧ ItemsMean rest items r ∧
          (∀ item ∈ items, Admissible depth item) ∧ r.length < rest.length := by
  refine Reads.loop (fun (items : List Json) t => (∀ item ∈ items, Admissible depth item) ∧
    t.length ≤ rest.length ∧ ∀ values r, ItemsMean t values r → ItemsMean rest (items ++ values) r)
    (fun items t ⟨hadm, hle, hitems⟩ => (arrayRound_sound h items).mono ?_)
    ⟨nofun, Nat.le_refl _, fun _ _ h => h⟩
  have hsnoc {item : Json} (hitem : Admissible depth item) :
      ∀ item' ∈ items ++ [item], Admissible depth item' := by
    intro item' hmem
    rcases List.mem_append.1 hmem with hmem | hmem
    · exact hadm item' hmem
    · rwa [List.mem_singleton.1 hmem]
  rintro (items' | value) r ⟨item, hitem, hlt, hx⟩
  · obtain ⟨rfl, hmeans⟩ := hx
    refine ⟨⟨hsnoc hitem, by omega, fun values r' hvalues => ?_⟩, hlt⟩
    rw [List.append_assoc]
    exact hitems _ r' (hmeans values r' hvalues)
  · obtain ⟨rfl, hmeans⟩ := hx
    exact ⟨items ++ [item], rfl, hitems _ r hmeans, hsnoc hitem, by omega⟩

/-- An array at a depth is read if values of the depths that are left are. -/
theorem array_sound (h : depth ≤ maxJsonDepth → ReadsSound bytes (maxJsonDepth - depth) reader) :
    Reads bytes IsSyntaxError ('[' :: rest) (array bytes depth reader) fun value r =>
      Means ('[' :: rest) value r ∧ Admissible (maxJsonDepth + 1 - depth) value ∧
        r.length < ('[' :: rest).length := by
  refine .ite (fun _ => .error _) fun hdepth => ?_
  have hle := Nat.le_of_not_lt hdepth
  rw [Nat.sub_add_comm hle]
  refine .advance_bind (by decide) (Reads.whitespace.bind fun _ t hws => .peek_bind ?_)
  have hlen := hws.length_le
  refine .ite (fun hc => ?_) fun _ => (arrayLoop_sound (h hle)).mono ?_
  · obtain ⟨r, rfl⟩ := (eq_byte_iff (by decide)).1 hc
    refine .advance_bind (by decide) (.pure ⟨⟨.array [], .emptyArray hws, .array .nil⟩,
      ⟨.array nofun, .array nofun⟩, ?_⟩)
    rw [List.length_cons] at hlen ⊢
    omega
  · rintro value r ⟨items, rfl, hitems, hadm, hlt⟩
    obtain ⟨trees, hderive, hdenotes⟩ := hitems.ws hws
    refine ⟨⟨.array trees, .array hderive, .array hdenotes⟩,
      ⟨.array fun item hi => (hadm item hi).1, .array fun item hi => (hadm item hi).2⟩, ?_⟩
    rw [List.length_cons]
    omega

/-! ### Objects -/

/-- A round reads a member with a new name in front of other members, or the last one. -/
theorem objectRound_sound (h : ReadsSound bytes depth reader) (members : List (String × Json)) :
    Reads bytes IsSyntaxError rest (objectRound bytes reader members) fun x r =>
      (∃ member, Admissible depth member.2 ∧ member.1 ∉ members.map Prod.fst ∧
        r.length < rest.length ∧ x.elim
          (fun members' => members' = members ++ [member] ∧
            ∀ values r', MembersMean r values r' → MembersMean rest (member :: values) r')
          fun value => value = .object (members ++ [member]) ∧ MembersMean rest [member] r) := by
  refine Reads.whitespace.bind fun _ t₁ hbefore =>
    .peek_bind (.ite (fun _ => .error _) fun hc => ?_)
  obtain ⟨t₂, rfl⟩ := (eq_byte_iff (by decide)).1 (not_not.1 hc)
  refine .get_bind fun _ _ => string_sound.bind fun key t₃ hkey =>
    .ite (fun _ => .fail _) fun hnew =>
    Reads.whitespace.bind fun _ t₄ hcolon => .peek_bind (.ite (fun _ => .error _) fun hc => ?_)
  obtain ⟨t₅, rfl⟩ := (eq_byte_iff (by decide)).1 (not_not.1 hc)
  refine .advance_bind (by decide) (Reads.whitespace.bind fun _ t₆ hitem => (h t₆).bind
    fun item t₇ ⟨hvalue, hadm, hlt⟩ => Reads.whitespace.bind fun _ t₈ hafter => .peek_bind ?_)
  have hmember : MemberMeans rest (key, item) t₇ := .mk hbefore hkey hcolon hitem hvalue
  have hfresh : key ∉ members.map Prod.fst := by
    intro hmem
    obtain ⟨member, hmem', rfl⟩ := List.mem_map.1 hmem
    exact hnew (List.any_eq_true.2 ⟨member, hmem', beq_self_eq_true _⟩)
  have hlen₁ := hbefore.length_le
  have hlen₂ := hkey.length_lt
  have hlen₃ := hcolon.length_le
  have hlen₄ := hitem.length_le
  have hlen₅ := hafter.length_le
  rw [List.length_cons] at hlen₁ hlen₃
  refine .ite (fun hc => ?_) fun _ => .ite (fun hc => ?_) fun _ => .error _
  · obtain ⟨r, rfl⟩ := (eq_byte_iff (by decide)).1 hc
    rw [List.length_cons] at hlen₅
    exact .advance_bind (by decide) (.pure ⟨(key, item), hadm, hfresh, by omega, rfl,
      fun values r' hvalues => .cons hmember hafter hvalues⟩)
  · obtain ⟨r, rfl⟩ := (eq_byte_iff (by decide)).1 hc
    rw [List.length_cons] at hlen₅
    exact .advance_bind (by decide) (.pure ⟨(key, item), hadm, hfresh, by omega, rfl,
      .last hmember hafter⟩)

/-- The loop over members reads the members of an object, whose names are distinct. -/
theorem objectLoop_sound (h : ReadsSound bytes depth reader) :
    Reads bytes IsSyntaxError rest
      (Fallible.loop .panic (bytes.length + 1) [] (objectRound bytes reader)) fun value r =>
        ∃ members, value = .object members ∧ MembersMean rest members r ∧
          (members.map Prod.fst).Nodup ∧ (∀ member ∈ members, Admissible depth member.2) ∧
            r.length < rest.length := by
  refine Reads.loop (fun (members : List (String × Json)) t => (members.map Prod.fst).Nodup ∧
      (∀ member ∈ members, Admissible depth member.2) ∧ t.length ≤ rest.length ∧
        ∀ values r, MembersMean t values r → MembersMean rest (members ++ values) r)
    (fun members t ⟨hnodup, hadm, hle, hmembers⟩ => (objectRound_sound h members).mono ?_)
    ⟨List.nodup_nil, nofun, Nat.le_refl _, fun _ _ h => h⟩
  rintro x r ⟨member, hmember, hfresh, hlt, hx⟩
  have hnodup' : ((members ++ [member]).map Prod.fst).Nodup := by
    rw [List.map_append, List.map_singleton]
    exact List.nodup_append.2 ⟨hnodup, List.pairwise_singleton _ _, fun key hkey other hother => by
      rw [List.mem_singleton.1 hother]
      exact fun heq => hfresh (heq ▸ hkey)⟩
  have hadm' : ∀ member' ∈ members ++ [member], Admissible depth member'.2 := by
    intro member' hmem
    rcases List.mem_append.1 hmem with hmem | hmem
    · exact hadm member' hmem
    · rwa [List.mem_singleton.1 hmem]
  cases x with
  | inl members' =>
    obtain ⟨rfl, hmeans⟩ := hx
    refine ⟨⟨hnodup', hadm', by omega, fun values r' hvalues => ?_⟩, hlt⟩
    rw [List.append_assoc]
    exact hmembers _ r' (hmeans values r' hvalues)
  | inr value =>
    obtain ⟨rfl, hmeans⟩ := hx
    exact ⟨members ++ [member], rfl, hmembers _ r hmeans, hnodup', hadm', by omega⟩

/-- An object at a depth is read if values of the depths that are left are. -/
theorem object_sound (h : depth ≤ maxJsonDepth → ReadsSound bytes (maxJsonDepth - depth) reader) :
    Reads bytes IsSyntaxError ('\x7b' :: rest) (object bytes depth reader) fun value r =>
      Means ('\x7b' :: rest) value r ∧ Admissible (maxJsonDepth + 1 - depth) value ∧
        r.length < ('\x7b' :: rest).length := by
  refine .ite (fun _ => .error _) fun hdepth => ?_
  have hle := Nat.le_of_not_lt hdepth
  rw [Nat.sub_add_comm hle]
  refine .advance_bind (by decide) (Reads.whitespace.bind fun _ t hws => .peek_bind ?_)
  have hlen := hws.length_le
  refine .ite (fun hc => ?_) fun _ => (objectLoop_sound (h hle)).mono ?_
  · obtain ⟨r, rfl⟩ := (eq_byte_iff (by decide)).1 hc
    refine .advance_bind (by decide) (.pure ⟨⟨.object [], .emptyObject hws, .object .nil .nil⟩,
      ⟨.object nofun, .object List.nodup_nil nofun⟩, ?_⟩)
    rw [List.length_cons] at hlen ⊢
    omega
  · rintro value r ⟨members, rfl, hmembers, hnodup, hadm, hlt⟩
    obtain ⟨trees, hderive, hkeys, hdenotes⟩ := hmembers.ws hws
    refine ⟨⟨.object trees, .object hderive, .object hkeys hdenotes⟩,
      ⟨.object fun member hm => (hadm member hm).1,
        .object hnodup fun member hm => (hadm member hm).2⟩, ?_⟩
    rw [List.length_cons]
    omega

/-! ### Values -/

/-- The first character of a value decides how it is read. -/
private theorem value_dispatch {E : Stop JsonSyntaxError → Prop} {calls : ℕ} {c : Char}
    {Q : Json → List Char → Prop}
    (h : Reads bytes E (c :: rest) (
      if c = 'n' then literal bytes "null" .null
      else if c = 't' then literal bytes "true" (.bool true)
      else if c = 'f' then literal bytes "false" (.bool false)
      else if c = '"' then do
        let text ← string bytes
        pure (.string text)
      else if c = '[' then array bytes (depth + 1) (value bytes calls (depth + 1))
      else if c = '\x7b' then object bytes (depth + 1) (value bytes calls (depth + 1))
      else if c = '-' ∨ Grammar.isDigit c then number bytes
      else error "expected a value") Q) :
    Reads bytes E (c :: rest) (value bytes (calls + 1) depth) Q := by
  refine .peek_bind ?_
  have hdigit : Parser.isDigit (firstByte c) = Grammar.isDigit c := agree_isDigit.firstByte c
  have hbyte {a : Char} (ha : IsAscii a) : firstByte c = byte a ↔ c = a := firstByte_eq_byte_iff ha
  simp only [List.head?_cons, Option.map_some, hdigit, hbyte (a := 'n') (by decide),
    hbyte (a := 't') (by decide), hbyte (a := 'f') (by decide), hbyte (a := '"') (by decide),
    hbyte (a := '[') (by decide), hbyte (a := '\x7b') (by decide), hbyte (a := '-') (by decide)]
  exact h

/-- A level of the parser reads values if the level below does. -/
private theorem value_succ_sound {calls : ℕ} (h : depth + 1 ≤ maxJsonDepth →
      ReadsSound bytes (maxJsonDepth - (depth + 1)) (value bytes calls (depth + 1))) :
    ReadsSound bytes (maxJsonDepth - depth) (value bytes (calls + 1) depth) := by
  intro rest
  have hdepth : maxJsonDepth + 1 - (depth + 1) = maxJsonDepth - depth := Nat.add_sub_add_right _ 1 _
  cases rest with
  | nil => exact .peek_bind (.error _)
  | cons c t =>
    refine value_dispatch (.ite (fun hc => ?_) fun _ => .ite (fun hc => ?_) fun _ =>
      .ite (fun hc => ?_) fun _ => .ite (fun hc => ?_) fun _ => .ite (fun hc => ?_) fun _ =>
        .ite (fun hc => ?_) fun _ => .ite (fun _ => ?_) fun _ => .error _)
    · refine (literal_sound (isAscii_of_all rfl)).mono ?_
      rintro v r ⟨rfl, hrest⟩
      have hmeans : Means (c :: t) .null r := ⟨.null, hrest ▸ .null, .null⟩
      exact ⟨hmeans, ⟨.null, .null⟩, hmeans.length_lt⟩
    · refine (literal_sound (isAscii_of_all rfl)).mono ?_
      rintro v r ⟨rfl, hrest⟩
      have hmeans : Means (c :: t) (.bool true) r := ⟨.bool true, hrest ▸ .litTrue, .bool⟩
      exact ⟨hmeans, ⟨.bool, .bool⟩, hmeans.length_lt⟩
    · refine (literal_sound (isAscii_of_all rfl)).mono ?_
      rintro v r ⟨rfl, hrest⟩
      have hmeans : Means (c :: t) (.bool false) r := ⟨.bool false, hrest ▸ .litFalse, .bool⟩
      exact ⟨hmeans, ⟨.bool, .bool⟩, hmeans.length_lt⟩
    · subst hc
      refine string_sound.bind fun text r ⟨elements, htext, hdecodes⟩ => .pure ?_
      have hdenotes := Denotes.string hdecodes
      rw [String.ofList_toList] at hdenotes
      have hmeans : Means ('"' :: t) (.string text) r := ⟨_, .string htext, hdenotes⟩
      exact ⟨hmeans, ⟨.string, .string⟩, hmeans.length_lt⟩
    · subst hc
      exact hdepth ▸ array_sound h
    · subst hc
      exact hdepth ▸ object_sound h
    · refine number_sound.mono ?_
      rintro v r ⟨text, hrest, hnumber, rfl⟩
      have hmeans : Means (c :: t) (.number (String.ofList text)) r :=
        ⟨.number text, hrest ▸ .number hnumber, .number⟩
      exact ⟨hmeans, ⟨.number, .number⟩, hmeans.length_lt⟩

/-- What is read as a value is one, and it denotes the value that is returned. -/
theorem value_sound {calls : ℕ} (hcalls : calls + depth = maxJsonDepth) :
    ReadsSound bytes (maxJsonDepth - depth) (value bytes (calls + 1) depth) := by
  induction calls generalizing depth with
  | zero => exact value_succ_sound fun h => absurd h (by omega)
  | succ calls ih => exact value_succ_sound fun _ => ih (by omega)

/-! ### Reading what is derivable -/

/-- White space and a structural character end a number. -/
theorem noHead_of_ws {t r : List Char} (h : Ws t r) (hr : NoHead isNumberTail r) :
    NoHead isNumberTail t := by
  cases h with
  | nil => exact hr
  | cons hc _ =>
    simp only [Grammar.isWhitespace, Bool.or_eq_true, beq_iff_eq] at hc
    rcases hc with ((rfl | rfl) | rfl) | rfl <;> rfl

/-- A round in front of the items of an array reads the first of them. -/
theorem arrayRound_complete (h : ReadsComplete bytes depth reader) (items : List Json)
    {values : List Json} {r : List Char} (hvalues : ItemsMean rest values r)
    (hadm : ∀ value ∈ values, Admissible depth value) :
    Reads bytes Never rest (arrayRound bytes reader items) fun x r' => x.elim
      (fun items' => (∃ values', items' ++ values' = items ++ values ∧
        (∀ value ∈ values', Admissible depth value) ∧ ItemsMean r' values' r) ∧
          r'.length < rest.length)
      fun value => value = .array (items ++ values) ∧ r' = r := by
  obtain ⟨t₁, t₂, item, values', rfl, hbefore, hitem, hend⟩ := hvalues.cases
  obtain ⟨hadmItem, hadm'⟩ := List.forall_mem_cons.1 hadm
  have htail : NoHead isNumberTail t₂ := by
    rcases hend with ⟨-, hafter⟩ | ⟨t₃, hafter, -⟩ <;> exact noHead_of_ws hafter rfl
  refine .whitespace_bind hbefore hitem.noHead
    ((h t₁ item t₂ hitem hadmItem htail).bind_of ?_)
  rcases hend with ⟨rfl, hafter⟩ | ⟨t₃, hafter, hrest⟩
  · refine .whitespace_bind hafter rfl (.peek_bind (.ite
      (fun h => absurd (Option.some.inj h) (by decide)) fun _ => .ite (fun _ => ?_) fun h =>
        absurd rfl h))
    exact .advance_bind (by decide) (.pure ⟨rfl, rfl⟩)
  · refine .whitespace_bind hafter rfl (.peek_bind (.ite (fun _ => ?_) fun h => absurd rfl h))
    refine .advance_bind (by decide) (.pure ⟨⟨values', ?_, hadm', hrest⟩, ?_⟩)
    · rw [List.append_assoc, List.singleton_append]
    · have := hbefore.length_le
      have := hitem.length_lt
      have := hafter.length_le
      rw [List.length_cons] at this
      omega

theorem arrayLoop_complete (h : ReadsComplete bytes depth reader) {values : List Json}
    {r : List Char} (hvalues : ItemsMean rest values r)
    (hadm : ∀ value ∈ values, Admissible depth value) :
    Reads bytes Never rest (Fallible.loop .panic (bytes.length + 1) [] (arrayRound bytes reader))
      fun value r' => value = .array values ∧ r' = r := by
  refine Reads.loop (fun (items : List Json) t => ∃ values', items ++ values' = values ∧
    (∀ value ∈ values', Admissible depth value) ∧ ItemsMean t values' r)
    (fun items t ⟨values', heq, hadm', hmeans⟩ =>
      (arrayRound_complete h items hmeans hadm').mono ?_) ⟨values, rfl, hadm, hvalues⟩
  rintro (items' | value) r' hx
  · obtain ⟨⟨values'', heq', hadm'', hmeans'⟩, hlt⟩ := hx
    exact ⟨⟨values'', heq'.trans heq, hadm'', hmeans'⟩, hlt⟩
  · obtain ⟨rfl, hr⟩ := hx
    exact ⟨by rw [heq], hr⟩

/-- A round in front of the members of an object reads the first of them. -/
theorem objectRound_complete (h : ReadsComplete bytes depth reader) (members : List (String × Json))
    {values : List (String × Json)} {r : List Char} (hvalues : MembersMean rest values r)
    (hkeys : ((members ++ values).map Prod.fst).Nodup)
    (hadm : ∀ value ∈ values, Admissible depth value.2) :
    Reads bytes Never rest (objectRound bytes reader members) fun x r' => x.elim
      (fun members' => (∃ values', members' ++ values' = members ++ values ∧
        (∀ value ∈ values', Admissible depth value.2) ∧ MembersMean r' values' r) ∧
          r'.length < rest.length)
      fun value => value = .object (members ++ values) ∧ r' = r := by
  obtain ⟨t₆, ⟨key, item⟩, values', rfl, hmember, hend⟩ := hvalues.cases
  obtain ⟨t₁, t₂, t₃, t₄, hbefore, hkey, hcolon, hspace, hitem⟩ := hmember.cases
  obtain ⟨hadmItem, hadm'⟩ := List.forall_mem_cons.1 hadm
  have htail : NoHead isNumberTail t₆ := by
    rcases hend with ⟨-, hafter⟩ | ⟨t₅, hafter, -⟩ <;> exact noHead_of_ws hafter rfl
  have hfresh : ¬ members.any (·.1 == key) = true := by
    intro hany
    obtain ⟨member, hmem, heq⟩ := List.any_eq_true.1 hany
    rw [List.map_append, List.map_cons, List.nodup_append] at hkeys
    exact hkeys.2.2 member.1 (List.mem_map_of_mem hmem) key List.mem_cons_self (beq_iff_eq.1 heq)
  refine .whitespace_bind hbefore rfl (.peek_bind (.ite (fun h => absurd rfl h) fun _ => ?_))
  refine .get_bind fun _ _ => (string_complete hkey).bind_of ?_
  rw [String.ofList_toList]
  refine .ite (fun h => absurd h hfresh) fun _ => .whitespace_bind hcolon rfl
    (.peek_bind (.ite (fun h => absurd rfl h) fun _ => .advance_bind (by decide) ?_))
  refine .whitespace_bind hspace hitem.noHead
    ((h t₄ item t₆ hitem hadmItem htail).bind_of ?_)
  rcases hend with ⟨rfl, hafter⟩ | ⟨t₅, hafter, hrest⟩
  · refine .whitespace_bind hafter rfl (.peek_bind (.ite
      (fun h => absurd (Option.some.inj h) (by decide)) fun _ => .ite (fun _ => ?_) fun h =>
        absurd rfl h))
    exact .advance_bind (by decide) (.pure ⟨rfl, rfl⟩)
  · refine .whitespace_bind hafter rfl (.peek_bind (.ite (fun _ => ?_) fun h => absurd rfl h))
    refine .advance_bind (by decide) (.pure ⟨⟨values', ?_, hadm', hrest⟩, ?_⟩)
    · rw [List.append_assoc, List.singleton_append]
    · have := hmember.length_lt
      have := hafter.length_le
      rw [List.length_cons] at this
      omega

theorem objectLoop_complete (h : ReadsComplete bytes depth reader) {values : List (String × Json)}
    {r : List Char} (hvalues : MembersMean rest values r) (hkeys : (values.map Prod.fst).Nodup)
    (hadm : ∀ value ∈ values, Admissible depth value.2) :
    Reads bytes Never rest (Fallible.loop .panic (bytes.length + 1) [] (objectRound bytes reader))
      fun value r' => value = .object values ∧ r' = r := by
  refine Reads.loop (fun (members : List (String × Json)) t => ∃ values',
    members ++ values' = values ∧
    (∀ value ∈ values', Admissible depth value.2) ∧ MembersMean t values' r)
    (fun members t ⟨values', heq, hadm', hmeans⟩ =>
      (objectRound_complete h members hmeans (heq ▸ hkeys) hadm').mono ?_)
    ⟨values, rfl, hadm, hvalues⟩
  rintro (members' | value) r' hx
  · obtain ⟨⟨values'', heq', hadm'', hmeans'⟩, hlt⟩ := hx
    exact ⟨⟨values'', heq'.trans heq, hadm'', hmeans'⟩, hlt⟩
  · obtain ⟨rfl, hr⟩ := hx
    exact ⟨by rw [heq], hr⟩

theorem emptyArray_complete {r : List Char} (hws : Ws rest (']' :: r))
    (hdepth : depth ≤ maxJsonDepth) :
    Reads bytes Never ('[' :: rest) (array bytes depth reader) fun v r' =>
      v = .array [] ∧ r' = r := by
  refine .ite (fun h => absurd hdepth (Nat.not_le.2 h)) fun _ => .advance_bind (by decide) ?_
  exact .whitespace_bind hws rfl (.peek_bind (.ite (fun _ => .advance_bind (by decide)
    (.pure ⟨rfl, rfl⟩)) fun h => absurd rfl h))

theorem array_complete (h : ReadsComplete bytes (maxJsonDepth - depth) reader)
    (hdepth : depth ≤ maxJsonDepth) {values : List Json} {r : List Char}
    (hvalues : ItemsMean rest values r)
    (hadm : ∀ value ∈ values, Admissible (maxJsonDepth - depth) value) :
    Reads bytes Never ('[' :: rest) (array bytes depth reader) fun v r' =>
      v = .array values ∧ r' = r := by
  refine .ite (fun h => absurd hdepth (Nat.not_le.2 h)) fun _ => .advance_bind (by decide) ?_
  obtain ⟨t₁, hws, hhead, hstart, hvalues'⟩ := hvalues.skip
  refine .whitespace_bind hws hhead (.peek_bind (.ite (fun h => ?_) fun _ =>
    arrayLoop_complete h hvalues' hadm))
  exact absurd ((head?_map_firstByte_eq_iff (by decide)).1 h) hstart

theorem emptyObject_complete {r : List Char} (hws : Ws rest ('\x7d' :: r))
    (hdepth : depth ≤ maxJsonDepth) :
    Reads bytes Never ('\x7b' :: rest) (object bytes depth reader) fun v r' =>
      v = .object [] ∧ r' = r := by
  refine .ite (fun h => absurd hdepth (Nat.not_le.2 h)) fun _ => .advance_bind (by decide) ?_
  exact .whitespace_bind hws rfl (.peek_bind (.ite (fun _ => .advance_bind (by decide)
    (.pure ⟨rfl, rfl⟩)) fun h => absurd rfl h))

theorem object_complete (h : ReadsComplete bytes (maxJsonDepth - depth) reader)
    (hdepth : depth ≤ maxJsonDepth) {values : List (String × Json)} {r : List Char}
    (hvalues : MembersMean rest values r) (hkeys : (values.map Prod.fst).Nodup)
    (hadm : ∀ value ∈ values, Admissible (maxJsonDepth - depth) value.2) :
    Reads bytes Never ('\x7b' :: rest) (object bytes depth reader) fun v r' =>
      v = .object values ∧ r' = r := by
  refine .ite (fun h => absurd hdepth (Nat.not_le.2 h)) fun _ => .advance_bind (by decide) ?_
  obtain ⟨t₁, hws, hvalues'⟩ := hvalues.skip
  exact .whitespace_bind hws rfl (.peek_bind (.ite
    (fun h => absurd (Option.some.inj h) (by decide)) fun _ =>
      objectLoop_complete h hvalues' hkeys hadm))

/-- A level of the parser reads admissible values if the level below does. -/
private theorem value_succ_complete {calls : ℕ} (h : depth + 1 ≤ maxJsonDepth →
      ReadsComplete bytes (maxJsonDepth - (depth + 1)) (value bytes calls (depth + 1))) :
    ReadsComplete bytes (maxJsonDepth - depth) (value bytes (calls + 1) depth) := by
  rintro rest v r ⟨tree, hvalue, hdenotes⟩ ⟨hnested, hdistinct⟩ hr
  have hinner {inner : ℕ} (hdepth : maxJsonDepth - depth = inner + 1) :
      depth + 1 ≤ maxJsonDepth ∧ inner = maxJsonDepth - (depth + 1) := by omega
  cases hvalue with
  | null =>
    cases hdenotes
    exact value_dispatch (literal_complete "null" (isAscii_of_all rfl))
  | litTrue =>
    cases hdenotes
    exact value_dispatch (literal_complete "true" (isAscii_of_all rfl))
  | litFalse =>
    cases hdenotes
    exact value_dispatch (literal_complete "false" (isAscii_of_all rfl))
  | number hnumber =>
    cases hdenotes
    obtain ⟨c, text', rfl, hc⟩ := hnumber.head
    have hne {a : Char} (ha : ¬ (a = '-' ∨ Grammar.isDigit a = true)) : c ≠ a := by
      rintro rfl
      exact ha hc
    refine value_dispatch ?_
    rw [if_neg (hne (by decide)), if_neg (hne (by decide)), if_neg (hne (by decide)),
      if_neg (hne (by decide)), if_neg (hne (by decide)), if_neg (hne (by decide)), if_pos hc]
    exact number_complete hnumber hr
  | string htext =>
    cases hdenotes with
    | string hdecodes =>
      exact value_dispatch ((string_complete ⟨_, htext, hdecodes⟩).bind_of (.pure ⟨rfl, rfl⟩))
  | emptyArray hws =>
    cases hdenotes with
    | array hall =>
      obtain rfl := List.forall₂_nil_left_iff.1 hall
      obtain ⟨inner, hdepth, -⟩ := hnested.of_array
      exact value_dispatch (emptyArray_complete hws (hinner hdepth).1)
  | array hitems =>
    cases hdenotes with
    | array hall =>
      obtain ⟨inner, hdepth, hwithin⟩ := hnested.of_array
      obtain ⟨hle, rfl⟩ := hinner hdepth
      cases hdistinct with
      | array hkeys =>
        exact value_dispatch (array_complete (h hle) hle ⟨_, hitems, hall⟩ fun value hmem =>
          ⟨hwithin value hmem, hkeys value hmem⟩)
  | emptyObject hws =>
    cases hdenotes with
    | object _ hall =>
      obtain rfl := List.forall₂_nil_left_iff.1 hall
      obtain ⟨inner, hdepth, -⟩ := hnested.of_object
      exact value_dispatch (emptyObject_complete hws (hinner hdepth).1)
  | object hmembers =>
    cases hdenotes with
    | object hnames hall =>
      obtain ⟨inner, hdepth, hwithin⟩ := hnested.of_object
      obtain ⟨hle, rfl⟩ := hinner hdepth
      cases hdistinct with
      | object hnodup hkeys =>
        exact value_dispatch (object_complete (h hle) hle ⟨_, hmembers, hnames, hall⟩ hnodup
          fun member hmem => ⟨hwithin member hmem, hkeys member hmem⟩)

/-- Admissible values are read. -/
theorem value_complete {calls : ℕ} (hcalls : calls + depth = maxJsonDepth) :
    ReadsComplete bytes (maxJsonDepth - depth) (value bytes (calls + 1) depth) := by
  induction calls generalizing depth with
  | zero => exact value_succ_complete fun h => absurd h (by omega)
  | succ calls ih => exact value_succ_complete fun _ => ih (by omega)

/-! ### Texts -/

theorem at_end {position : ℕ} (h : At bytes rest position) :
    position = bytes.length ↔ rest = [] := by
  have hlen := congrArg List.length h.2
  rw [List.length_drop] at hlen
  have hle := h.1
  rw [← List.length_eq_zero_iff]
  have := length_encode_le rest
  constructor
  · intro heq
    omega
  · intro heq
    rw [List.length_eq_zero_iff.1 heq, encode_nil, List.length_nil] at hlen
    omega

theorem document_sound : Reads bytes IsSyntaxError rest (document bytes) fun v r =>
    r = [] ∧ (∃ tree, JsonText rest tree ∧ Denotes tree v) ∧ Admissible maxJsonDepth v := by
  refine Reads.whitespace.bind fun _ t hbefore => (value_sound (Nat.add_zero _) t).bind
    fun v t' ⟨⟨tree, hvalue, hdenotes⟩, hadm, _⟩ => Reads.whitespace.bind fun _ r hafter =>
      .get_bind fun position hposition => .ite (fun _ => .error _) fun hend => .pure ?_
  obtain rfl := (at_end hposition).1 (not_not.1 hend)
  exact ⟨rfl, ⟨tree, ⟨t, t', hbefore, hvalue, hafter⟩, hdenotes⟩, hadm⟩

theorem document_complete {tree : Syntax} {v : Json} (htext : JsonText rest tree)
    (hdenotes : Denotes tree v) (hadm : Admissible maxJsonDepth v) :
    Reads bytes Never rest (document bytes) fun v' r => v' = v ∧ r = [] := by
  obtain ⟨t, r, hbefore, hvalue, hafter⟩ := htext
  have hmeans : Means t v r := ⟨tree, hvalue, hdenotes⟩
  refine .whitespace_bind hbefore hmeans.noHead ((value_complete (Nat.add_zero _) t v r hmeans hadm
    (noHead_of_ws hafter rfl)).bind_of (.whitespace_bind hafter rfl ?_))
  exact .get_bind fun position hposition => .ite
    (fun h => absurd ((at_end hposition).2 rfl) h) fun _ => .pure ⟨rfl, rfl⟩

end Parser

/-- The parser starts in front of its input. -/
private theorem at_start (input : String) : Parser.At (Str.asBytes input) input.toList 0 :=
  ⟨Nat.zero_le _, rfl⟩

/-- The parser always ends, with a value or a syntax error. -/
theorem parse_safe (input : String) : Outcome.Safe (parse input) := by
  rw [parse]
  split_ifs
  · exact Outcome.Safe.raise _
  · have hsound := Parser.document_sound 0 (at_start input)
    intro h
    rcases hrun : (Parser.document (Str.asBytes input)).run 0 with ⟨e | v, position⟩
    · rw [hrun] at hsound h
      exact hsound (Except.error.inj h)
    · rw [hrun] at h
      exact nomatch h

/-- The texts that the parser accepts, and the value it returns. -/
theorem parse_eq_ok_iff {input : String} {v : Json} : parse input = .ok v ↔
    Str.len input ≤ maxJsonBytes ∧
      (∃ tree, Grammar.JsonText input.toList tree ∧ Grammar.Denotes tree v) ∧
        DistinctKeys v ∧ NestedWithin maxJsonDepth v := by
  by_cases hlen : Str.len input > maxJsonBytes
  · rw [parse, if_pos hlen]
    exact ⟨nofun, fun h => absurd h.1 (Nat.not_le.2 hlen)⟩
  · rw [parse, if_neg hlen]
    constructor
    · intro h
      have hsound := Parser.document_sound 0 (at_start input)
      rcases hrun : (Parser.document (Str.asBytes input)).run 0 with ⟨e | v', position⟩
      · rw [hrun] at h
        exact nomatch h
      · rw [hrun] at hsound h
        obtain rfl := Except.ok.inj h
        obtain ⟨rest, _, _, htree, hadm⟩ := hsound
        exact ⟨Nat.le_of_not_lt hlen, htree, hadm.2, hadm.1⟩
    · rintro ⟨-, ⟨tree, htext, hdenotes⟩, hkeys, hdepth⟩
      have hcomplete := Parser.document_complete htext hdenotes ⟨hdepth, hkeys⟩ 0 (at_start input)
      rcases hrun : (Parser.document (Str.asBytes input)).run 0 with ⟨e | v', position⟩
      · rw [hrun] at hcomplete
        exact hcomplete.elim
      · rw [hrun] at hcomplete
        obtain ⟨rest, _, rfl, _⟩ := hcomplete
        rfl

/-- The parser always ends without a panic, and it accepts exactly the texts of the grammar that
are short enough, have no lone surrogate, no object with two members of one name and no values
nested too deeply. The value it returns is the one that the text denotes. -/
theorem parse_correct (input : String) :
    Outcome.Safe (parse input) ∧ ∀ v, parse input = .ok v ↔
      Str.len input ≤ maxJsonBytes ∧
        (∃ tree, Grammar.JsonText input.toList tree ∧ Grammar.Denotes tree v) ∧
          DistinctKeys v ∧ NestedWithin maxJsonDepth v :=
  ⟨parse_safe input, fun _ => parse_eq_ok_iff⟩

end Json

end NNIS
