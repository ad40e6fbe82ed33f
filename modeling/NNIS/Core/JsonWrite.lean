import NNIS.Core.JsonParse

/-!
# Written values are read back

The text of a value derives the value: no white space is written, the characters that cannot stand
for themselves are written as escapes of the grammar, and a comma or a closing bracket follows each
item. The parser therefore reads back what was written, if the value is one that it could return at
all and its text is short enough.

## Main definitions

* `Json.Writable`.

## Main results

* `Json.means_write` — the text of a value derives it.
* `Json.Writable.readBack`, `Json.parse_write` — the parser inverts the writer.
-/

set_option autoImplicit false

namespace NNIS

namespace Json

open Grammar

/-! ### Strings -/

theorem hexValue_hexChar {digit : ℕ} (h : digit < 16) : hexValue (hexChar digit) = some digit := by
  have htable : ∀ digit < 16, hexValue (hexChar digit) = some digit := by decide
  exact htable digit h

theorem hex4_hexText {n : ℕ} (h : n < 0x10000) (r : List Char) :
    Hex4 ((hexText n).toList ++ r) n r := by
  have hmk := Hex4.mk (r := r) (hexValue_hexChar (Nat.mod_lt (n / 0x1000) (by decide)))
    (hexValue_hexChar (Nat.mod_lt (n / 0x100) (by decide)))
    (hexValue_hexChar (Nat.mod_lt (n / 0x10) (by decide)))
    (hexValue_hexChar (Nat.mod_lt n (by decide)))
  have hvalue : ((n / 0x1000 % 16 * 16 + n / 0x100 % 16) * 16 + n / 0x10 % 16) * 16 + n % 16 =
      n := by
    omega
  rw [hvalue] at hmk
  rw [hexText, String.toList_ofList]
  exact hmk

/-- A character is written as itself or as an escape of itself. -/
theorem chars_writeChar (c : Char) {t chars r : List Char} (h : Chars t chars r) :
    Chars ((writeChar c).toList ++ t) (c :: chars) r := by
  unfold writeChar
  split_ifs with hquote hbackslash hnewline hreturn htab hcontrol
  · exact hquote ▸ .escape (.simple rfl) h
  · exact hbackslash ▸ .escape (.simple rfl) h
  · exact hnewline ▸ .escape (.simple rfl) h
  · exact hreturn ▸ .escape (.simple rfl) h
  · exact htab ▸ .escape (.simple rfl) h
  · have hhex := hex4_hexText (Nat.lt_trans hcontrol (by decide)) t
    have hcode : EscapeText ('u' :: ((hexText c.toNat).toList ++ t)) (Char.ofNat c.toNat) t :=
      .unicode (.scalar hhex (fun hhigh => absurd hhigh.1 (by omega))
        fun hlow => absurd hlow.1 (by omega))
    rw [Char.ofNat_toNat] at hcode
    rw [String.toList_append]
    exact .escape hcode h
  · have hplain : isUnescaped c = true := by
      simp only [isUnescaped, Nat.le_of_not_lt hcontrol, hquote, hbackslash, ne_eq,
        not_false_eq_true, decide_true, Bool.and_self]
    rw [String.toList_singleton]
    exact .unescaped hplain h

private theorem chars_flatMap_writeChar (chars r : List Char) :
    Chars (chars.flatMap (fun c => (writeChar c).toList) ++ '"' :: r) chars r := by
  induction chars with
  | nil => exact .close
  | cons c chars ih =>
    rw [List.flatMap_cons, List.append_assoc]
    exact chars_writeChar c ih

/-- The text of a string, after its opening mark, denotes the string. -/
theorem chars_writeString (text : String) (r : List Char) :
    ∃ t, (writeString text).toList ++ r = '"' :: t ∧ Chars t text.toList r := by
  refine ⟨_, ?_, chars_flatMap_writeChar text.toList r⟩
  simp only [writeString, String.toList_append, String.toList_join, List.flatMap_map,
    List.append_assoc]
  rfl

/-! ### Values -/

theorem means_string (text : String) (r : List Char) :
    Means ((writeString text).toList ++ r) (.string text) r := by
  obtain ⟨t, heq, elements, htext, hdecodes⟩ := chars_writeString text r
  have hdenotes := Denotes.string hdecodes
  rw [String.ofList_toList] at hdenotes
  exact heq ▸ ⟨.string elements, .string htext, hdenotes⟩

/-- The texts of items with commas between them are the items of an array. -/
theorem itemsMean_writeItems {items : List Json}
    (h : ∀ item ∈ items, ∀ r, Means ((write item).toList ++ r) item r) (hne : items ≠ [])
    (r : List Char) : ItemsMean ((writeItems items).toList ++ ']' :: r) items r := by
  induction items with
  | nil => exact absurd rfl hne
  | cons item items ih =>
    obtain ⟨hitem, hitems⟩ := List.forall_mem_cons.1 h
    cases items with
    | nil => exact .last .nil (hitem _) .nil
    | cons item' items =>
      have hrest := ih hitems (List.cons_ne_nil _ _)
      rw [writeItems, String.toList_append, String.toList_append, List.append_assoc,
        List.append_assoc]
      exact .cons .nil (hitem _) .nil hrest
      exact List.cons_ne_nil _ _

theorem membersMean_writeMembers {members : List (String × Json)}
    (h : ∀ member ∈ members, ∀ r, Means ((write member.2).toList ++ r) member.2 r)
    (hne : members ≠ []) (r : List Char) :
    MembersMean ((writeMembers members).toList ++ '\x7d' :: r) members r := by
  have hmember {key : String} {item : Json}
      (hitem : ∀ r, Means ((write item).toList ++ r) item r) (r : List Char) :
      MemberMeans ((writeString key).toList ++ (':' :: ((write item).toList ++ r)))
        (key, item) r := by
    obtain ⟨t, heq, hkey⟩ := chars_writeString key (':' :: ((write item).toList ++ r))
    rw [heq]
    exact .mk .nil hkey .nil .nil (hitem r)
  induction members with
  | nil => exact absurd rfl hne
  | cons member members ih =>
    obtain ⟨key, item⟩ := member
    obtain ⟨hitem, hitems⟩ := List.forall_mem_cons.1 h
    cases members with
    | nil =>
      rw [writeMembers, String.toList_append, String.toList_append, List.append_assoc,
        List.append_assoc]
      exact .last (hmember hitem _) .nil
    | cons member' members =>
      have hrest := ih hitems (List.cons_ne_nil _ _)
      rw [writeMembers]
      · simp only [String.toList_append, List.append_assoc]
        exact .cons (hmember hitem _) .nil hrest
      · exact List.cons_ne_nil _ _

/-- The text of a value derives it, whatever follows. -/
theorem means_write {value : Json} (h : ValidNumbers value) (r : List Char) :
    Means ((write value).toList ++ r) value r := by
  induction value using Json.induction generalizing r with
  | null => exact ⟨.null, .null, .null⟩
  | bool value =>
    cases value with
    | true => exact ⟨.bool true, .litTrue, .bool⟩
    | false => exact ⟨.bool false, .litFalse, .bool⟩
  | number text =>
    cases h with
    | number h =>
      have hdenotes : Denotes (.number text.toList) (.number (String.ofList text.toList)) :=
        .number
      rw [String.ofList_toList] at hdenotes
      exact ⟨.number text.toList, .number h, hdenotes⟩
  | string text => exact means_string text r
  | array items ih =>
    cases h with
    | array h =>
      rw [write, String.toList_append, String.toList_append, List.append_assoc, List.append_assoc]
      cases items with
      | nil => exact ⟨.array [], .emptyArray .nil, .array .nil⟩
      | cons item items =>
        obtain ⟨trees, hderive, hdenotes⟩ := itemsMean_writeItems
          (fun item hmem => ih item hmem (h item hmem)) (List.cons_ne_nil item items) r
        exact ⟨.array trees, .array hderive, .array hdenotes⟩
  | object members ih =>
    cases h with
    | object h =>
      rw [write, String.toList_append, String.toList_append, List.append_assoc, List.append_assoc]
      cases members with
      | nil => exact ⟨.object [], .emptyObject .nil, .object .nil .nil⟩
      | cons member members =>
        obtain ⟨trees, hderive, hkeys, hdenotes⟩ := membersMean_writeMembers
          (fun member hmem => ih member hmem (h member hmem)) (List.cons_ne_nil member members) r
        exact ⟨.object trees, .object hderive, .object hkeys hdenotes⟩

/-- A value that the parser could return and whose text is short enough for it. -/
structure Writable (value : Json) : Prop where
  keys : DistinctKeys value
  numbers : ValidNumbers value
  depth : NestedWithin maxJsonDepth value
  len_le : Str.len (write value) ≤ maxJsonBytes

theorem Writable.readBack {value : Json} (h : Writable value) :
    parse (write value) = .ok value := by
  obtain ⟨tree, hvalue, hdenotes⟩ := means_write h.numbers []
  rw [List.append_nil] at hvalue
  exact parse_eq_ok_iff.2 ⟨h.len_le, ⟨tree, ⟨_, _, .nil, hvalue, .nil⟩, hdenotes⟩, h.keys, h.depth⟩

/-- A value with distinct names and valid numbers, nested no deeper than the parser goes, is read
back from its text, if the text is no longer than the parser takes. -/
theorem parse_write (value : Json) (hkeys : DistinctKeys value) (hnumbers : ValidNumbers value)
    (hdepth : NestedWithin maxJsonDepth value) (hlen : Str.len (write value) ≤ maxJsonBytes) :
    parse (write value) = .ok value :=
  Writable.readBack ⟨hkeys, hnumbers, hdepth, hlen⟩

theorem parse_write_sample :
    parse (write (.array [.number "1", .string "\"\n\x01😀"])) =
      .ok (.array [.number "1", .string "\"\n\x01😀"]) := by
  have hone : Grammar.IsNumber "1".toList :=
    ⟨[], ['1'], [], [], rfl, .inl rfl,
      .inr ⟨⟨by decide, List.all_eq_true.1 rfl⟩, by decide⟩, .inl rfl, .inl rfl⟩
  refine parse_write _ (.array ?_) (.array ?_) (.array ?_) (by decide +kernel)
  · exact List.forall_mem_cons.2 ⟨.number, List.forall_mem_singleton.2 .string⟩
  · exact List.forall_mem_cons.2 ⟨.number hone, List.forall_mem_singleton.2 .string⟩
  · exact List.forall_mem_cons.2 ⟨.number, List.forall_mem_singleton.2 .string⟩

end Json

end NNIS
