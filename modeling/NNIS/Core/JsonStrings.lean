import NNIS.Core.JsonLexemes

/-!
# Strings

A string is read as its derivation and the meaning of the derivation at once: `Chars t chars r`
says that the text `t` is the rest of a string, up to and with its closing mark, that denotes the
characters `chars`. A round of the loop of the parser reads the longest run of characters that
stand for themselves, and then the closing mark or one escape; an escape is one character even if
it is written as two code units.

## Main definitions

* `Json.Grammar.EscapeText`, `Json.Grammar.Chars`.

## Main results

* `Json.Parser.string_sound`, `Json.Parser.string_complete`.
-/

set_option autoImplicit false

namespace NNIS

namespace Json

namespace Grammar

/-! ### Characters of a string -/

/-- The code point of an escape by number, after the `u`. -/
inductive EscapeCode : List Char → ℕ → List Char → Prop
  | scalar {t r : List Char} {code : ℕ} (h : Hex4 t code r) (hhigh : ¬ IsHighSurrogate code)
      (hlow : ¬ IsLowSurrogate code) : EscapeCode t code r
  | pair {t t' r : List Char} {high low : ℕ} (h : Hex4 t high ('\\' :: 'u' :: t'))
      (h' : Hex4 t' low r) (hhigh : IsHighSurrogate high) (hlow : IsLowSurrogate low) :
    EscapeCode t (0x10000 + (high - 0xD800) * 2 ^ 10 + (low - 0xDC00)) r

/-- The character of an escape, after the backslash. -/
inductive EscapeText : List Char → Char → List Char → Prop
  | simple {c c' : Char} {r : List Char} (h : escapeChar c = some c') : EscapeText (c :: r) c' r
  | unicode {t r : List Char} {code : ℕ} (h : EscapeCode t code r) :
    EscapeText ('u' :: t) (Char.ofNat code) r

/-- The rest of a string, with the characters it denotes. -/
def Chars (t chars r : List Char) : Prop :=
  ∃ elements, StringText t elements r ∧ Decodes elements chars

namespace Chars

variable {t r chars : List Char}

theorem close : Chars ('"' :: r) [] r := ⟨[], .close, .nil⟩

theorem unescaped {c : Char} (hc : isUnescaped c = true) : Chars t chars r →
    Chars (c :: t) (c :: chars) r
  | ⟨_, htext, hdecodes⟩ => ⟨_, .unescaped hc htext, .char hdecodes⟩

theorem escape {t' : List Char} {c : Char} (hc : EscapeText t c t') :
    Chars t' chars r → Chars ('\\' :: t) (c :: chars) r
  | ⟨elements, htext, hdecodes⟩ => by
    cases hc with
    | simple h => exact ⟨_, .escape h htext, .char hdecodes⟩
    | unicode h =>
      cases h with
      | scalar h hhigh hlow => exact ⟨_, .unicode h htext, .scalar hhigh hlow hdecodes⟩
      | pair h h' hhigh hlow =>
        exact ⟨_, .unicode h (.unicode h' htext), .pair hhigh hlow hdecodes⟩

/-- The rest of a string starts with its closing mark, a character or an escape. -/
theorem cases (h : Chars t chars r) :
    (t = '"' :: r ∧ chars = []) ∨
    (∃ c t' chars', isUnescaped c = true ∧ t = c :: t' ∧ chars = c :: chars' ∧
      Chars t' chars' r) ∨
    ∃ t' c t'' chars', EscapeText t' c t'' ∧ t = '\\' :: t' ∧ chars = c :: chars' ∧
      Chars t'' chars' r := by
  obtain ⟨elements, htext, hdecodes⟩ := h
  cases htext with
  | close =>
    cases hdecodes
    exact .inl ⟨rfl, rfl⟩
  | unescaped hc htext =>
    cases hdecodes with
    | char hdecodes => exact .inr (.inl ⟨_, _, _, hc, rfl, rfl, _, htext, hdecodes⟩)
  | escape hc htext =>
    cases hdecodes with
    | char hdecodes => exact .inr (.inr ⟨_, _, _, _, .simple hc, rfl, rfl, _, htext, hdecodes⟩)
  | unicode hcode htext =>
    cases hdecodes with
    | scalar hhigh hlow hdecodes =>
      exact .inr (.inr ⟨_, _, _, _, .unicode (.scalar hcode hhigh hlow), rfl, rfl, _, htext,
        hdecodes⟩)
    | pair hhigh hlow hdecodes =>
      cases htext with
      | unicode hcode' htext =>
        exact .inr (.inr ⟨_, _, _, _, .unicode (.pair hcode hcode' hhigh hlow), rfl, rfl, _, htext,
          hdecodes⟩)

/-- A run of characters that stand for themselves in front of the rest of a string. -/
theorem of_dropWhile (h : Chars (t.dropWhile isUnescaped) chars r) :
    Chars t (t.takeWhile isUnescaped ++ chars) r := by
  induction t with
  | nil => exact h
  | cons c t ih =>
    by_cases hc : isUnescaped c = true
    · rw [List.dropWhile_cons_of_pos hc] at h
      rw [List.takeWhile_cons_of_pos hc]
      exact unescaped hc (ih h)
    · rw [List.dropWhile_cons_of_neg hc] at h
      rw [List.takeWhile_cons_of_neg hc]
      exact h

theorem dropWhile (h : Chars t chars r) : ∃ chars',
    chars = t.takeWhile isUnescaped ++ chars' ∧ Chars (t.dropWhile isUnescaped) chars' r := by
  induction t generalizing chars with
  | nil => exact ⟨chars, rfl, h⟩
  | cons c t ih =>
    by_cases hc : isUnescaped c = true
    · rw [List.dropWhile_cons_of_pos hc, List.takeWhile_cons_of_pos hc]
      rcases h.cases with ⟨ht, rfl⟩ | ⟨c', t', chars', -, ht, rfl, h'⟩ |
        ⟨t', c', t'', chars', -, ht, -⟩
      · rw [(List.cons.inj ht).1] at hc
        exact absurd hc (by decide)
      · obtain ⟨rfl, rfl⟩ := List.cons.inj ht
        obtain ⟨chars'', rfl, h''⟩ := ih h'
        exact ⟨chars'', rfl, h''⟩
      · rw [(List.cons.inj ht).1] at hc
        exact absurd hc (by decide)
    · rw [List.dropWhile_cons_of_neg hc, List.takeWhile_cons_of_neg hc]
      exact ⟨chars, rfl, h⟩

end Chars

theorem isAscii_of_hexValue {c : Char} {digit : ℕ} (h : hexValue c = some digit) :
    Utf8.IsAscii c := by
  unfold hexValue at h
  split_ifs at h with h₁ h₂ h₃
  · exact .of_le (by decide) h₁.2
  · exact .of_le (by decide) h₂.2
  · exact .of_le (by decide) h₃.2

theorem lt_of_hexValue {c : Char} {digit : ℕ} (h : hexValue c = some digit) : digit < 16 := by
  have htable : ∀ n < 0x80, ∀ digit ∈ hexValue (Char.ofNat n), digit < 16 := by decide +kernel
  refine htable c.toNat (isAscii_of_hexValue h) digit ?_
  rw [Char.ofNat_toNat]
  exact h

theorem Hex4.lt {t r : List Char} {code : ℕ} (h : Hex4 t code r) : code < 0x10000 := by
  cases h with
  | mk ha hb hc hd =>
    have := lt_of_hexValue ha
    have := lt_of_hexValue hb
    have := lt_of_hexValue hc
    have := lt_of_hexValue hd
    omega

/-- The code point of an escape is a character. -/
theorem EscapeCode.isValidChar {t r : List Char} {code : ℕ} (h : EscapeCode t code r) :
    code.isValidChar := by
  cases h with
  | scalar h hhigh hlow =>
    have := h.lt
    unfold IsHighSurrogate at hhigh
    unfold IsLowSurrogate at hlow
    unfold Nat.isValidChar
    omega
  | pair h h' hhigh hlow =>
    unfold IsHighSurrogate at hhigh
    unfold IsLowSurrogate at hlow
    unfold Nat.isValidChar
    omega

theorem isAscii_of_escapeChar {c c' : Char} (h : escapeChar c = some c') : Utf8.IsAscii c := by
  unfold escapeChar at h
  split at h <;> first | decide | exact nomatch h

theorem Hex4.length_lt {t r : List Char} {code : ℕ} (h : Hex4 t code r) :
    r.length < t.length := by
  cases h
  simp only [List.length_cons]
  omega

theorem EscapeCode.length_lt {t r : List Char} {code : ℕ} (h : EscapeCode t code r) :
    r.length < t.length := by
  cases h with
  | scalar h => exact h.length_lt
  | pair h h' =>
    have := h.length_lt
    have := h'.length_lt
    simp only [List.length_cons] at *
    omega

theorem EscapeText.length_lt {t r : List Char} {c : Char} (h : EscapeText t c r) :
    r.length < t.length := by
  cases h with
  | simple => exact Nat.lt_succ_self _
  | unicode h => exact Nat.lt_succ_of_lt h.length_lt

theorem StringText.length_lt {t r : List Char} {elements : List Element}
    (h : StringText t elements r) : r.length < t.length := by
  induction h with
  | close => exact Nat.lt_succ_self _
  | unescaped hc h ih => exact Nat.lt_succ_of_lt ih
  | escape hc h ih => exact Nat.lt_succ_of_lt (Nat.lt_succ_of_lt ih)
  | unicode hcode h ih =>
    have := hcode.length_lt
    simp only [List.length_cons]
    omega

theorem Chars.length_lt {t chars r : List Char} : Chars t chars r → r.length < t.length
  | ⟨_, htext, _⟩ => htext.length_lt

end Grammar

namespace Parser

open Utf8 Grammar

variable {bytes : List UInt8} {rest : List Char}

/-! ### Escapes -/

theorem hex4_eq : hex4 bytes = (do
    let a ← hex4Round bytes 0
    let b ← hex4Round bytes a
    let c ← hex4Round bytes b
    hex4Round bytes c) := by
  simp only [hex4, Fallible.foldRange, bind_assoc, pure_bind]

theorem hex4Round_sound {value : ℕ} : Reads bytes IsSyntaxError rest (hex4Round bytes value)
    fun v r => ∃ c digit, rest = c :: r ∧ hexValue c = some digit ∧ v = value * 16 + digit := by
  refine .peek_bind ?_
  cases rest with
  | nil => exact .error _
  | cons c r =>
    have hagree : ((c :: r).head?.map firstByte).bind hexDigit = hexValue c :=
      agree_hexDigit.firstByte c
    rw [hagree]
    cases hdigit : hexValue c with
    | none => exact .error _
    | some digit =>
      exact .advance_bind (isAscii_of_hexValue hdigit) (.pure ⟨c, digit, rfl, hdigit, rfl⟩)

theorem hex4Round_complete {value digit : ℕ} {c : Char} {r : List Char}
    (h : hexValue c = some digit) : Reads bytes Never (c :: r) (hex4Round bytes value)
      fun v r' => v = value * 16 + digit ∧ r' = r := by
  refine .peek_bind ?_
  have hagree : ((c :: r).head?.map firstByte).bind hexDigit = some digit :=
    (agree_hexDigit.firstByte c).trans h
  rw [hagree]
  exact .advance_bind (isAscii_of_hexValue h) (.pure ⟨rfl, rfl⟩)

theorem hex4_sound : Reads bytes IsSyntaxError rest (hex4 bytes) fun code r =>
    Hex4 rest code r := by
  rw [hex4_eq]
  refine hex4Round_sound.bind fun _ _ ⟨a, w, h₁, ha, hw⟩ => ?_
  refine hex4Round_sound.bind fun _ _ ⟨b, x, h₂, hb, hx⟩ => ?_
  refine hex4Round_sound.bind fun _ _ ⟨c, y, h₃, hc, hy⟩ => ?_
  refine hex4Round_sound.mono fun _ r ⟨d, z, h₄, hd, hz⟩ => ?_
  rw [h₁, h₂, h₃, h₄, hz, hy, hx, hw, Nat.zero_mul, Nat.zero_add]
  exact .mk ha hb hc hd

theorem hex4_complete {r : List Char} {code : ℕ} (h : Hex4 rest code r) :
    Reads bytes Never rest (hex4 bytes) fun code' r' => code' = code ∧ r' = r := by
  rw [hex4_eq]
  cases h with
  | mk ha hb hc hd =>
    refine (hex4Round_complete ha).bind_of ((hex4Round_complete hb).bind_of
      ((hex4Round_complete hc).bind_of ?_))
    rw [Nat.zero_mul, Nat.zero_add]
    exact hex4Round_complete hd

theorem unicodeEscape_sound : Reads bytes IsSyntaxError rest (unicodeEscape bytes) fun code r =>
    EscapeCode rest code r := by
  refine hex4_sound.bind fun first t hfirst => .ite (fun hhigh => ?_) fun hhigh =>
    .ite (fun _ => .error _) fun hlow => .pure (.scalar hfirst hhigh hlow)
  refine .rest_bind (.ite (fun h => ?_) fun _ => .error _)
  have hprefix : ['\\', 'u'] <+: t :=
    (encode_isPrefix_iff (isAscii_of_all rfl)).1 (List.isPrefixOf_iff_prefix.1 h)
  obtain ⟨t', rfl⟩ := hprefix
  refine (Reads.advance ['\\', 'u'] rfl).bind_to (hex4_sound.bind fun second r hsecond => ?_)
  exact .ite (fun hlow => .pure (.pair hfirst hsecond hhigh hlow)) fun _ => .error _

theorem unicodeEscape_complete {r : List Char} {code : ℕ} (h : EscapeCode rest code r) :
    Reads bytes Never rest (unicodeEscape bytes) fun code' r' => code' = code ∧ r' = r := by
  cases h with
  | scalar h hhigh hlow =>
    exact (hex4_complete h).bind_of (.ite (fun h => absurd h hhigh) fun _ =>
      .ite (fun h => absurd h hlow) fun _ => .pure ⟨rfl, rfl⟩)
  | @pair t' _ high low h h' hhigh hlow =>
    refine (hex4_complete h).bind_of (.ite (fun _ => .rest_bind (.ite (fun _ => ?_) fun h => ?_))
      fun h => absurd hhigh h)
    · refine (Reads.advance ['\\', 'u'] rfl).bind_to ((hex4_complete h').bind_of ?_)
      exact .ite (fun _ => .pure ⟨rfl, rfl⟩) fun h => absurd hlow h
    · have hprefix : encode ['\\', 'u'] <+: encode ('\\' :: 'u' :: t') :=
        (encode_isPrefix_iff (isAscii_of_all rfl)).2 (List.prefix_append ['\\', 'u'] t')
      exact absurd (List.isPrefixOf_iff_prefix.2 hprefix) h

theorem escape_sound : Reads bytes IsSyntaxError rest (escape bytes) fun c r =>
    EscapeText rest c r := by
  refine .peek_bind ?_
  cases rest with
  | nil => exact .error _
  | cons c t =>
    have hsimple : simpleEscape (firstByte c) = escapeChar c := agree_simpleEscape.firstByte c
    simp only [List.head?_cons, Option.map_some, hsimple,
      firstByte_eq_byte_iff (a := 'u') (by decide)]
    cases hc : escapeChar c with
    | some c' => exact .advance_bind (isAscii_of_escapeChar hc) (.pure (.simple hc))
    | none =>
      by_cases hu : c = 'u'
      · subst hu
        refine .advance_bind (by decide) ?_
        rw [if_pos rfl]
        refine unicodeEscape_sound.bind fun code r hcode => ?_
        rw [fromU32, if_pos hcode.isValidChar]
        exact .pure (.unicode hcode)
      · simp only [if_neg hu]
        exact .advance_error _ _

theorem escape_complete {c : Char} {r : List Char} (h : EscapeText rest c r) :
    Reads bytes Never rest (escape bytes) fun c' r' => c' = c ∧ r' = r := by
  refine .peek_bind ?_
  cases h with
  | @simple c₀ _ _ h =>
    have hsimple : simpleEscape (firstByte c₀) = some c := (agree_simpleEscape.firstByte c₀).trans h
    simp only [List.head?_cons, Option.map_some, hsimple]
    exact .advance_bind (isAscii_of_escapeChar h) (.pure ⟨rfl, rfl⟩)
  | unicode h =>
    refine .advance_bind (by decide) ((unicodeEscape_complete h).bind_of ?_)
    rw [fromU32, if_pos h.isValidChar]
    exact .pure ⟨rfl, rfl⟩

/-! ### The loop -/

/-- The characters of a run and of the character after it are appended to the output. -/
private theorem toList_push (output : String) (run : List Char) (c : Char) :
    ((output ++ String.ofList run).push c).toList = output.toList ++ (run ++ [c]) := by
  rw [String.toList_push, String.toList_append, String.toList_ofList, List.append_assoc]

/-- A round starts with the longest run of characters that stand for themselves. -/
private theorem stringRound_run {E : Stop JsonSyntaxError → Prop} {output : String}
    {Q : String ⊕ String → List Char → Prop}
    (h : Reads bytes E (rest.dropWhile isUnescaped) (do
      match ← peek bytes with
      | none => error "unterminated string"
      | some next =>
        if next = byte '"' then do
          advance 1
          pure (.inr (output ++ String.ofList (rest.takeWhile isUnescaped)))
        else if next = byte '\\' then do
          advance 1
          let c ← escape bytes
          pure (.inl ((output ++ String.ofList (rest.takeWhile isUnescaped)).push c))
        else error "control character in string") Q) :
    Reads bytes E rest (stringRound bytes output) Q := by
  refine .get_bind fun start hstart => ((Reads.skipWhile agree_isPlain).bind_to ?_)
  rw [← List.takeWhile_append_dropWhile (p := isUnescaped) (l := rest)] at hstart
  refine .slice_bind hstart ?_
  rw [Str.fromUtf8_encode]
  exact h

/-- A round reads characters in front of the rest of the string, or up to its end. -/
theorem stringRound_sound (output : String) :
    Reads bytes IsSyntaxError rest (stringRound bytes output) fun x r => x.elim
      (fun output' => (∃ chars, output'.toList = output.toList ++ chars ∧
        ∀ chars' r', Chars r chars' r' → Chars rest (chars ++ chars') r') ∧
          r.length < rest.length)
      fun text => ∃ chars, text.toList = output.toList ++ chars ∧ Chars rest chars r := by
  refine stringRound_run ?_
  have hlen := (List.dropWhile_suffix isUnescaped (l := rest)).length_le
  generalize hrun : rest.takeWhile isUnescaped = run
  have hchars {chars r : List Char} (h : Chars (rest.dropWhile isUnescaped) chars r) :
      Chars rest (run ++ chars) r := hrun ▸ Chars.of_dropWhile h
  generalize rest.dropWhile isUnescaped = tail at hlen hchars
  refine .peek_bind ?_
  cases tail with
  | nil => exact .error _
  | cons c t =>
    simp only [List.head?_cons, Option.map_some]
    refine .ite (fun hc => ?_) fun _ => .ite (fun hc => ?_) fun _ => .error _
    · obtain rfl := (firstByte_eq_byte_iff (by decide)).1 hc
      refine .advance_bind (by decide) (.pure ⟨run, ?_, ?_⟩)
      · rw [String.toList_append, String.toList_ofList]
      · have hclose := hchars Chars.close
        rwa [List.append_nil] at hclose
    · obtain rfl := (firstByte_eq_byte_iff (by decide)).1 hc
      refine .advance_bind (by decide) (escape_sound.bind fun c r hescape => .pure ⟨⟨run ++ [c],
        toList_push output run c, fun chars' r' h => ?_⟩, ?_⟩)
      · rw [List.append_assoc]
        exact hchars (Chars.escape hescape h)
      · have hlt := hescape.length_lt
        rw [List.length_cons] at hlen
        omega

/-- A round in front of the rest of a string reads some of its characters, or its end. -/
theorem stringRound_complete {chars r : List Char} (h : Chars rest chars r) (output : String) :
    Reads bytes Never rest (stringRound bytes output) fun x r' => x.elim
      (fun output' => (∃ chars', output'.toList ++ chars' = output.toList ++ chars ∧
        Chars r' chars' r) ∧ r'.length < rest.length)
      fun text => text.toList = output.toList ++ chars ∧ r' = r := by
  refine stringRound_run ?_
  have hlen := (List.dropWhile_suffix isUnescaped (l := rest)).length_le
  have hhead := List.head?_dropWhile_not isUnescaped rest
  obtain ⟨chars', rfl, htail⟩ := h.dropWhile
  generalize rest.takeWhile isUnescaped = run
  generalize rest.dropWhile isUnescaped = tail at hlen hhead htail
  rcases htail.cases with ⟨rfl, rfl⟩ | ⟨c, t, chars'', hc, rfl, -, -⟩ |
      ⟨t, c, t', chars'', hescape, rfl, rfl, hrest⟩
  · refine .peek_bind (.ite (fun _ => ?_) fun h => absurd rfl h)
    refine .advance_bind (by decide) (.pure ⟨?_, rfl⟩)
    rw [String.toList_append, String.toList_ofList, List.append_nil]
  · rw [List.head?_cons] at hhead
    simp only [hc] at hhead
    exact absurd hhead nofun
  · refine .peek_bind (.ite (fun h => absurd h (by decide)) fun _ => .ite (fun _ => ?_)
      fun h => absurd rfl h)
    refine .advance_bind (by decide) ((escape_complete hescape).bind_of (.pure ⟨⟨chars'', ?_,
      hrest⟩, ?_⟩))
    · rw [toList_push]
      simp only [List.append_assoc, List.cons_append, List.nil_append]
    · have hlt := hescape.length_lt
      rw [List.length_cons] at hlen
      omega

/-- What is read as a string is one, and it denotes the text that is returned. -/
theorem string_sound : Reads bytes IsSyntaxError ('"' :: rest) (string bytes) fun text r =>
    Chars rest text.toList r := by
  refine .advance_bind (by decide) (Reads.loop
    (fun (output : String) t => ∀ chars r, Chars t chars r → Chars rest (output.toList ++ chars) r)
    (fun output t ht => (stringRound_sound output).mono ?_) fun _ _ h => h)
  rintro (output' | text) r hr
  · obtain ⟨⟨chars, houtput, hchars⟩, hlt⟩ := hr
    refine ⟨fun chars' r' h => ?_, hlt⟩
    rw [houtput, List.append_assoc]
    exact ht _ r' (hchars chars' r' h)
  · obtain ⟨chars, htext, hchars⟩ := hr
    have hall : Chars rest (output.toList ++ chars) r := ht chars r hchars
    rwa [← htext] at hall

/-- A string is read as the text it denotes. -/
theorem string_complete {chars r : List Char} (h : Chars rest chars r) :
    Reads bytes Never ('"' :: rest) (string bytes) fun text r' =>
      text = String.ofList chars ∧ r' = r := by
  refine .advance_bind (by decide) (Reads.loop
    (fun (output : String) t => ∃ chars', output.toList ++ chars' = chars ∧ Chars t chars' r)
    (fun output t ⟨chars', houtput, ht⟩ => (stringRound_complete ht output).mono ?_)
    ⟨chars, rfl, h⟩)
  rintro (output' | text) r' hr
  · obtain ⟨⟨chars'', hchars, hrest⟩, hlt⟩ := hr
    exact ⟨⟨chars'', hchars.trans houtput, hrest⟩, hlt⟩
  · obtain ⟨htext, hr'⟩ := hr
    refine ⟨?_, hr'⟩
    rw [← houtput, ← htext, String.ofList_toList]

end Parser

end Json

end NNIS
