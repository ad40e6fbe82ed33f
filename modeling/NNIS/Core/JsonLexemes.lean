import NNIS.Core.JsonReads

/-!
# Lexemes

White space, literals, numbers and strings are read exactly as the grammar derives them, by the
longest match. For a lexeme there are two triples: what was read is derivable, and what is derivable
is read. In the second one the text must not go on with a character that the lexeme could take.

## Main results

* `Json.Parser.number_sound`, `Json.Parser.number_complete`.
-/

set_option autoImplicit false

namespace NNIS

namespace Json.Parser

open Utf8 Grammar

variable {bytes : List UInt8} {rest : List Char}

/-! ### White space and literals -/

section Rules

variable {α : Type} {E : Stop JsonSyntaxError → Prop} {f : PUnit → Parser α}
  {Q : α → List Char → Prop}

theorem Reads.whitespace : Reads bytes E rest (whitespace bytes) fun _ r => Ws rest r :=
  (Reads.skipWhile agree_isWhitespace).mono fun _ _ hr => hr ▸ ws_dropWhile rest

theorem Reads.whitespace_bind {r : List Char} (h : Ws rest r) (hr : NoHead Grammar.isWhitespace r)
    (hf : Reads bytes E r (f ⟨⟩) Q) : Reads bytes E rest (Parser.whitespace bytes >>= f) Q :=
  (Reads.skipWhile agree_isWhitespace).bind fun _ _ hr' => hr' ▸ (h.dropWhile_eq hr).symm ▸ hf

end Rules

theorem literal_sound {text : String} (htext : ∀ c ∈ text.toList, IsAscii c) {v : Json} :
    Reads bytes IsSyntaxError rest (literal bytes text v) fun v' r =>
      v' = v ∧ rest = text.toList ++ r := by
  refine .rest_bind (.ite (fun h => ?_) fun _ => .error _)
  obtain ⟨r, rfl⟩ := (encode_isPrefix_iff htext).1 (List.isPrefixOf_iff_prefix.1 h)
  exact (Reads.advance text.toList rfl).bind_to (.pure ⟨rfl, rfl⟩)

theorem literal_complete (text : String) (htext : ∀ c ∈ text.toList, IsAscii c) {v : Json}
    {r : List Char} : Reads bytes Never (text.toList ++ r) (literal bytes text v) fun v' r' =>
      v' = v ∧ r' = r := by
  refine .rest_bind (.ite (fun _ => ?_) fun h => ?_)
  · exact (Reads.advance text.toList rfl).bind_to (.pure ⟨rfl, rfl⟩)
  · refine absurd (List.isPrefixOf_iff_prefix.2 ?_) h
    exact (encode_isPrefix_iff htext).2 (List.prefix_append _ _)

/-! ### Numbers -/

section

variable {E : Stop JsonSyntaxError → Prop}

theorem digits_sound (h : rest.head?.any Grammar.isDigit = true) :
    Reads bytes E rest (digits bytes) fun _ r =>
      ∃ text, rest = text ++ r ∧ IsDigits text ∧ text.head? = rest.head? := by
  refine (Reads.skipWhile agree_isDigit).mono fun _ r hr => ?_
  cases rest with
  | nil => exact absurd h nofun
  | cons c t =>
    have hc : Grammar.isDigit c = true := h
    refine ⟨(c :: t).takeWhile Grammar.isDigit, ?_, ⟨?_, ?_⟩, ?_⟩
    · rw [hr, List.takeWhile_append_dropWhile]
    · rw [List.takeWhile_cons_of_pos hc]
      exact List.cons_ne_nil _ _
    · exact fun d hd => List.mem_takeWhile_imp hd
    · rw [List.takeWhile_cons_of_pos hc]
      rfl

theorem digits_complete {text r : List Char} (h : IsDigits text) (hr : NoHead Grammar.isDigit r) :
    Reads bytes E (text ++ r) (digits bytes) fun _ r' => r' = r := by
  refine (Reads.skipWhile agree_isDigit).mono fun _ r' hr' => ?_
  rw [hr', List.dropWhile_append_of_pos h.2]
  cases r with
  | nil => rfl
  | cons c r => exact List.dropWhile_cons_of_neg (Bool.eq_false_iff.1 hr)

end

theorem sign_sound : Reads bytes IsSyntaxError rest (sign bytes) fun _ r =>
    ∃ minus, rest = minus ++ r ∧ (minus = [] ∨ minus = ['-']) := by
  refine .peek_bind (.ite (fun h => ?_) fun _ => .pure ⟨[], rfl, .inl rfl⟩)
  obtain ⟨r, rfl⟩ := (eq_byte_iff (by decide)).1 h
  exact (Reads.advance ['-'] rfl).mono fun _ _ hr => ⟨['-'], by rw [hr]; rfl, .inr rfl⟩

theorem integer_sound : Reads bytes IsSyntaxError rest (integer bytes) fun _ r =>
    ∃ int, rest = int ++ r ∧ IsInt int := by
  refine .peek_bind (.ite (fun h => ?_) fun hzero => .ite (fun h => ?_) fun _ => .error _)
  · obtain ⟨r, rfl⟩ := (eq_byte_iff (by decide)).1 h
    exact .advance_bind (by decide) (.peek_bind (.ite (fun _ => .error _) fun _ =>
      .pure ⟨['0'], rfl, .inl rfl⟩))
  · rw [any_isDigit] at h
    refine (digits_sound h).mono fun _ r ⟨text, htext, hdigits, hhead⟩ =>
      ⟨text, htext, .inr ⟨hdigits, fun h0 => hzero ?_⟩⟩
    rw [head?_map_firstByte_eq_iff (by decide), ← hhead, h0]

theorem fraction_sound : Reads bytes IsSyntaxError rest (fraction bytes) fun _ r =>
    ∃ frac, rest = frac ++ r ∧ IsFrac frac := by
  refine .peek_bind (.ite (fun h => ?_) fun _ => .pure ⟨[], rfl, .inl rfl⟩)
  obtain ⟨t, rfl⟩ := (eq_byte_iff (by decide)).1 h
  refine .advance_bind (by decide) (.peek_bind (.ite (fun h => ?_) fun _ => .error _))
  rw [any_isDigit] at h
  exact (digits_sound h).mono fun _ r ⟨text, htext, hdigits, _⟩ =>
    ⟨'.' :: text, by rw [htext]; rfl, .inr ⟨text, rfl, hdigits⟩⟩

theorem exponentSign_sound : Reads bytes IsSyntaxError rest (exponentSign bytes) fun _ r =>
    ∃ sign, rest = sign ++ r ∧ IsSign sign := by
  refine .peek_bind (.ite (fun h => ?_) fun _ => .pure ⟨[], rfl, .inl rfl⟩)
  rcases h with h | h
  · obtain ⟨r, rfl⟩ := (eq_byte_iff (by decide)).1 h
    exact (Reads.advance ['+'] rfl).mono fun _ _ hr => ⟨['+'], by rw [hr]; rfl, .inr (.inl rfl)⟩
  · obtain ⟨r, rfl⟩ := (eq_byte_iff (by decide)).1 h
    exact (Reads.advance ['-'] rfl).mono fun _ _ hr => ⟨['-'], by rw [hr]; rfl, .inr (.inr rfl)⟩

theorem exponent_sound : Reads bytes IsSyntaxError rest (exponent bytes) fun _ r =>
    ∃ exp, rest = exp ++ r ∧ IsExp exp := by
  refine .peek_bind (.ite (fun h => ?_) fun _ => .pure ⟨[], rfl, .inl rfl⟩)
  have he : ∃ e t, rest = e :: t ∧ (e = 'e' ∨ e = 'E') ∧ IsAscii e := by
    rcases h with h | h
    · obtain ⟨t, rfl⟩ := (eq_byte_iff (by decide)).1 h
      exact ⟨'e', t, rfl, .inl rfl, by decide⟩
    · obtain ⟨t, rfl⟩ := (eq_byte_iff (by decide)).1 h
      exact ⟨'E', t, rfl, .inr rfl, by decide⟩
  obtain ⟨e, t, rfl, he, hascii⟩ := he
  refine .advance_bind hascii (exponentSign_sound.bind fun _ t' ⟨sign, ht, hsign⟩ =>
    .peek_bind (.ite (fun h => ?_) fun _ => .error _))
  rw [any_isDigit] at h
  exact (digits_sound h).mono fun _ r ⟨text, htext, hdigits, _⟩ =>
    ⟨e :: (sign ++ text), by rw [ht, htext, List.cons_append, List.append_assoc],
      .inr ⟨e, sign, text, rfl, he, hsign, hdigits⟩⟩

/-- What is read as a number is one. -/
theorem number_sound : Reads bytes IsSyntaxError rest (number bytes) fun v r =>
    ∃ text, rest = text ++ r ∧ IsNumber text ∧ v = .number (String.ofList text) := by
  refine .get_bind fun start hstart => ?_
  refine sign_sound.bind fun _ t₁ ⟨minus, h₁, hminus⟩ =>
    integer_sound.bind fun _ t₂ ⟨int, h₂, hint⟩ =>
    fraction_sound.bind fun _ t₃ ⟨frac, h₃, hfrac⟩ =>
      exponent_sound.bind fun _ r ⟨exp, h₄, hexp⟩ => ?_
  have htext : rest = minus ++ (int ++ (frac ++ exp)) ++ r := by
    rw [h₁, h₂, h₃, h₄]
    simp only [List.append_assoc]
  refine .slice_bind (htext ▸ hstart) ?_
  rw [Str.fromUtf8_encode]
  exact .pure ⟨_, htext, ⟨minus, int, frac, exp, rfl, hminus, hint, hfrac, hexp⟩, rfl⟩

/-- Characters a number could go on with. -/
def isNumberTail (c : Char) : Bool := Grammar.isDigit c || c == '.' || c == 'e' || c == 'E'

theorem IsDigits.head {text : List Char} (h : IsDigits text) (r : List Char) :
    (text ++ r).head?.any Grammar.isDigit = true := by
  obtain ⟨hne, hall⟩ := h
  cases text with
  | nil => exact absurd rfl hne
  | cons c text => exact hall c List.mem_cons_self

section

variable {r : List Char}

theorem sign_complete {minus : List Char} (h : minus = [] ∨ minus = ['-'])
    (hr : r.head? ≠ some '-') :
    Reads bytes Never (minus ++ r) (sign bytes) fun _ r' => r' = r := by
  rcases h with rfl | rfl
  · refine .peek_bind (.ite (fun h => ?_) fun _ => .pure rfl)
    exact absurd ((head?_map_firstByte_eq_iff (by decide)).1 h) hr
  · refine .peek_bind (.ite (fun _ => Reads.advance ['-'] rfl) fun h => ?_)
    exact absurd ((eq_byte_iff (by decide)).2 ⟨r, rfl⟩) h

theorem integer_complete {int : List Char} (h : IsInt int) (hr : NoHead Grammar.isDigit r) :
    Reads bytes Never (int ++ r) (integer bytes) fun _ r' => r' = r := by
  rcases h with rfl | ⟨hdigits, hzero⟩
  · refine .peek_bind (.ite (fun _ => ?_) fun h => ?_)
    · refine .advance_bind (by decide) (.peek_bind (.ite (fun h => ?_) fun _ => .pure rfl))
      rw [any_isDigit] at h
      exact absurd (hr.symm.trans h) nofun
    · exact absurd ((eq_byte_iff (by decide)).2 ⟨r, rfl⟩) h
  · refine .peek_bind (.ite (fun h => ?_) fun _ => .ite (fun _ => digits_complete hdigits hr)
      fun h => ?_)
    · rw [head?_map_firstByte_eq_iff (by decide),
        List.head?_append_of_ne_nil int hdigits.1] at h
      exact absurd h hzero
    · rw [any_isDigit] at h
      exact absurd (IsDigits.head hdigits r) h

theorem fraction_complete {frac : List Char} (h : IsFrac frac) (hdot : r.head? ≠ some '.')
    (hr : NoHead Grammar.isDigit r) :
    Reads bytes Never (frac ++ r) (fraction bytes) fun _ r' => r' = r := by
  rcases h with rfl | ⟨text, rfl, hdigits⟩
  · refine .peek_bind (.ite (fun h => ?_) fun _ => .pure rfl)
    exact absurd ((head?_map_firstByte_eq_iff (by decide)).1 h) hdot
  · refine .peek_bind (.ite (fun _ => ?_) fun h => ?_)
    · refine .advance_bind (by decide) (.peek_bind (.ite (fun _ => digits_complete hdigits hr)
        fun h => ?_))
      rw [any_isDigit] at h
      exact absurd (IsDigits.head hdigits r) h
    · exact absurd ((eq_byte_iff (by decide)).2 ⟨_, rfl⟩) h

theorem exponentSign_complete {sign : List Char} (h : IsSign sign) (hplus : r.head? ≠ some '+')
    (hminus : r.head? ≠ some '-') :
    Reads bytes Never (sign ++ r) (exponentSign bytes) fun _ r' => r' = r := by
  rcases h with rfl | rfl | rfl
  · refine .peek_bind (.ite (fun h => ?_) fun _ => .pure rfl)
    rw [head?_map_firstByte_eq_iff (by decide), head?_map_firstByte_eq_iff (by decide)] at h
    exact (h.elim hplus hminus).elim
  · refine .peek_bind (.ite (fun _ => Reads.advance ['+'] rfl) fun h => ?_)
    exact absurd (.inl ((eq_byte_iff (by decide)).2 ⟨r, rfl⟩)) h
  · refine .peek_bind (.ite (fun _ => Reads.advance ['-'] rfl) fun h => ?_)
    exact absurd (.inr ((eq_byte_iff (by decide)).2 ⟨r, rfl⟩)) h

/-- A digit is none of the other characters of a number. -/
theorem IsDigits.head?_ne {text : List Char} (h : IsDigits text) {c : Char}
    (hc : Grammar.isDigit c = false) : (text ++ r).head? ≠ some c := by
  intro hhead
  have hdigit := IsDigits.head h r
  rw [hhead, Option.any_some, hc] at hdigit
  exact absurd hdigit nofun

theorem exponent_complete {exp : List Char} (h : IsExp exp) (hr : NoHead isNumberTail r) :
    Reads bytes Never (exp ++ r) (exponent bytes) fun _ r' => r' = r := by
  have hdigit : NoHead Grammar.isDigit r := hr.mono fun c hc => by
    simp only [isNumberTail, hc, Bool.true_or]
  rcases h with rfl | ⟨e, sign, text, rfl, he, hsign, hdigits⟩
  · refine .peek_bind (.ite (fun h => ?_) fun _ => .pure rfl)
    rw [head?_map_firstByte_eq_iff (by decide), head?_map_firstByte_eq_iff (by decide)] at h
    exact (h.elim (hr.head?_ne (by decide)) (hr.head?_ne (by decide))).elim
  · rw [List.cons_append, List.append_assoc]
    refine .peek_bind (.ite (fun _ => ?_) fun h => ?_)
    · refine .advance_bind (by rcases he with rfl | rfl <;> decide) ?_
      refine (exponentSign_complete hsign (IsDigits.head?_ne hdigits (by decide))
        (IsDigits.head?_ne hdigits (by decide))).bind_to ?_
      refine .peek_bind (.ite (fun _ => digits_complete hdigits hdigit) fun h => ?_)
      rw [any_isDigit] at h
      exact absurd (IsDigits.head hdigits r) h
    · rcases he with rfl | rfl
      · exact absurd (.inl ((eq_byte_iff (by decide)).2 ⟨_, rfl⟩)) h
      · exact absurd (.inr ((eq_byte_iff (by decide)).2 ⟨_, rfl⟩)) h

/-- A number is read, if the text does not go on as a number could. -/
theorem number_complete {text : List Char} (h : IsNumber text) (hr : NoHead isNumberTail r) :
    Reads bytes Never (text ++ r) (number bytes) fun v r' =>
      v = .number (String.ofList text) ∧ r' = r := by
  obtain ⟨minus, int, frac, exp, htext, hminus, hint, hfrac, hexp⟩ := h
  have hdigit : NoHead Grammar.isDigit r := hr.mono fun c hc => by
    simp only [isNumberTail, hc, Bool.true_or]
  have hexpDigit : NoHead Grammar.isDigit exp := by
    rcases hexp with rfl | ⟨e, sign, text, rfl, rfl | rfl, -⟩ <;> rfl
  have hexpDot : NoHead (· == '.') exp := by
    rcases hexp with rfl | ⟨e, sign, text, rfl, rfl | rfl, -⟩ <;> rfl
  have hfracDigit : NoHead Grammar.isDigit frac := by
    rcases hfrac with rfl | ⟨digits, rfl, -⟩ <;> rfl
  have hminusInt : (int ++ (frac ++ (exp ++ r))).head? ≠ some '-' := by
    rcases hint with rfl | ⟨hdigits, -⟩
    · exact fun h => absurd (Option.some.inj h) (by decide)
    · exact IsDigits.head?_ne hdigits (by decide)
  have hdot : NoHead (· == '.') r := hr.mono fun c hc => by
    simp only [isNumberTail, hc, Bool.true_or, Bool.or_true]
  refine .get_bind fun start hstart => ?_
  have hrest : text ++ r = minus ++ (int ++ (frac ++ (exp ++ r))) := by
    rw [htext]
    simp only [List.append_assoc]
  have hslice := hstart
  rw [hrest]
  refine (sign_complete hminus hminusInt).bind_to ?_
  refine (integer_complete hint (hfracDigit.append (hexpDigit.append hdigit))).bind_to ?_
  refine (fraction_complete hfrac ((hexpDot.append hdot).head?_ne (by decide))
    (hexpDigit.append hdigit)).bind_to ?_
  refine (exponent_complete hexp hr).bind_to (.slice_bind hslice ?_)
  rw [Str.fromUtf8_encode]
  exact .pure ⟨rfl, rfl⟩

end

end Json.Parser

end NNIS
