import NNIS.Core.JsonGrammar

/-!
# Triples of the parser

A position is in front of characters if the bytes from there on encode them. `Reads` is a triple of
a parser in these terms, and its rules step over the characters that the parser steps over. The
tests that the parser makes on bytes are tests of characters.

A triple is used with one of two conditions on failures: that they are syntax errors, and not
panics, when nothing is assumed of the text, and that there are none, when the text starts with
something derivable.

## Main definitions

* `Json.Parser.At`, `Json.Parser.Reads`, `Json.Parser.IsSyntaxError`, `Json.Parser.Never`.

## Main results

* `Json.Parser.Reads.bind`, `Json.Parser.Reads.slice_bind`, `Json.Parser.Reads.skipWhile`,
  `Json.Parser.Reads.loop` — the rules of the triple.
* `Json.Parser.agree_isDigit`, `Json.Parser.agree_hexDigit`, `Json.Parser.agree_simpleEscape`.
-/

set_option autoImplicit false

namespace NNIS

namespace Json.Parser

open Utf8 Grammar

section

variable {bytes : List UInt8}

/-- The position is in front of some characters. -/
def At (bytes : List UInt8) (rest : List Char) (position : ℕ) : Prop :=
  position ≤ bytes.length ∧ bytes.drop position = encode rest

theorem At.getElem? {rest : List Char} {position : ℕ} (h : At bytes rest position) :
    bytes[position]? = rest.head?.map firstByte := by
  rw [← head?_encode, ← h.2, List.head?_drop]

theorem At.skip {text rest : List Char} {position : ℕ} (h : At bytes (text ++ rest) position) :
    At bytes rest (position + (encode text).length) := by
  obtain ⟨hle, hdrop⟩ := h
  rw [encode_append] at hdrop
  refine ⟨?_, ?_⟩
  · have hlen := congrArg List.length hdrop
    rw [List.length_drop, List.length_append] at hlen
    omega
  · rw [← List.drop_drop, hdrop, List.drop_left]

/-- The position moves on by the characters between. -/
theorem At.unique {text rest : List Char} {start position : ℕ}
    (hstart : At bytes (text ++ rest) start) (h : At bytes rest position) :
    position = start + (encode text).length := by
  have hskip := hstart.skip
  have hlen := congrArg List.length (h.2.trans hskip.2.symm)
  rw [List.length_drop, List.length_drop] at hlen
  have := h.1
  have := hskip.1
  omega

/-- A failure with a syntax error. -/
def IsSyntaxError (e : Stop JsonSyntaxError) : Prop := e ≠ .panic

/-- No failure. -/
def Never (_ : Stop JsonSyntaxError) : Prop := False

/-- In front of `rest`, the parser returns `a` in front of `rest'` with `Q a rest'`, or fails as `E`
says. -/
def Reads {α : Type} (bytes : List UInt8) (E : Stop JsonSyntaxError → Prop) (rest : List Char)
    (m : Parser α) (Q : α → List Char → Prop) : Prop :=
  Fallible.Spec (At bytes rest) m (fun a position => ∃ rest', At bytes rest' position ∧ Q a rest')
    fun e _ => E e

namespace Reads

variable {α β : Type} {E : Stop JsonSyntaxError → Prop} {rest : List Char}
  {Q Q' : β → List Char → Prop}

theorem pure {a : β} (h : Q a rest) : Reads bytes E rest (Pure.pure a) Q :=
  Fallible.Spec.pure a fun _ hs => ⟨rest, hs, h⟩

theorem bind {m : Parser α} {f : α → Parser β} {R : α → List Char → Prop}
    (hm : Reads bytes E rest m R) (hf : ∀ a rest', R a rest' → Reads bytes E rest' (f a) Q) :
    Reads bytes E rest (m >>= f) Q :=
  Fallible.Spec.bind hm fun a _ ⟨rest', hat, hR⟩ => hf a rest' hR _ hat

/-- Sequencing after a computation whose outcome is known. -/
theorem bind_of {m : Parser α} {f : α → Parser β} {a : α} {rest' : List Char}
    (hm : Reads bytes E rest m fun a' r => a' = a ∧ r = rest')
    (hf : Reads bytes E rest' (f a) Q) : Reads bytes E rest (m >>= f) Q :=
  hm.bind fun _ _ ⟨ha, hr⟩ => ha ▸ hr ▸ hf

/-- Sequencing after a computation that only moves the position, to a known place. -/
theorem bind_to {m : Parser PUnit} {f : PUnit → Parser β} {rest' : List Char}
    (hm : Reads bytes E rest m fun _ r => r = rest') (hf : Reads bytes E rest' (f ⟨⟩) Q) :
    Reads bytes E rest (m >>= f) Q :=
  hm.bind fun _ _ hr => hr ▸ hf

theorem mono {m : Parser β} (h : Reads bytes E rest m Q)
    (hQ : ∀ b rest', Q b rest' → Q' b rest') : Reads bytes E rest m Q' :=
  Fallible.Spec.conseq h (fun _ hs => hs) (fun b _ ⟨rest', hat, hq⟩ => ⟨rest', hat, hQ b rest' hq⟩)
    fun _ _ he => he

theorem ite {p : Prop} [Decidable p] {m m' : Parser β} (ht : p → Reads bytes E rest m Q)
    (hf : ¬ p → Reads bytes E rest m' Q) : Reads bytes E rest (if p then m else m') Q := by
  split_ifs with h
  · exact ht h
  · exact hf h

theorem error (reason : String) : Reads bytes IsSyntaxError rest (Parser.error reason) Q :=
  fun _ _ => nofun

theorem fail (e : JsonSyntaxError) :
    Reads bytes IsSyntaxError rest (Fallible.fail (.error e)) Q :=
  fun _ _ => nofun

theorem get_bind {f : ℕ → Parser β}
    (h : ∀ start, At bytes rest start → Reads bytes E rest (f start) Q) :
    Reads bytes E rest (Fallible.get >>= f) Q :=
  fun s hs => h s hs s hs

theorem peek_bind {f : Option UInt8 → Parser β}
    (h : Reads bytes E rest (f (rest.head?.map firstByte)) Q) :
    Reads bytes E rest (peek bytes >>= f) Q := by
  intro s hs
  have hpeek : (peek bytes).run s = (.ok (rest.head?.map firstByte), s) := by
    rw [← hs.getElem?]
    rfl
  rw [Fallible.run_bind_ok hpeek]
  exact h s hs

/-- Stepping over ASCII characters. -/
theorem advance (text : List Char) {count : ℕ} (hcount : count = (encode text).length) :
    Reads bytes E (text ++ rest) (Parser.advance count) fun _ rest' => rest' = rest :=
  Fallible.Spec.modify _ fun _ hs => ⟨rest, hcount ▸ hs.skip, rfl⟩

theorem advance_bind {c : Char} (hc : IsAscii c) {f : PUnit → Parser β}
    (h : Reads bytes E rest (f ⟨⟩) Q) : Reads bytes E (c :: rest) (Parser.advance 1 >>= f) Q := by
  have hone : 1 = (encode [c]).length := by rw [encode_cons_of_isAscii hc]; rfl
  exact (advance [c] hone).bind_to h

theorem advance_error (count : ℕ) (reason : String) :
    Reads bytes IsSyntaxError rest (Parser.advance count >>= fun _ => Parser.error reason) Q :=
  fun _ _ => nofun

theorem rest_bind {f : List UInt8 → Parser β} (h : Reads bytes E rest (f (encode rest)) Q) :
    Reads bytes E rest (Parser.rest bytes >>= f) Q := by
  intro s hs
  have hrest : (Parser.rest bytes).run s = (.ok (encode rest), s) := by
    rw [← hs.2, Parser.rest, Fallible.run_bind_ok (Fallible.run_get s), if_pos hs.1]
    rfl
  rw [Fallible.run_bind_ok hrest]
  exact h s hs

theorem slice_bind {text : List Char} {start : ℕ} (hstart : At bytes (text ++ rest) start)
    {f : List UInt8 → Parser β} (h : Reads bytes E rest (f (encode text)) Q) :
    Reads bytes E rest (slice bytes start >>= f) Q := by
  intro s hs
  have hs' := hstart.unique hs
  have hslice : (slice bytes start).run s = (.ok (encode text), s) := by
    have hrange : start ≤ s ∧ s ≤ bytes.length := ⟨by omega, hs.1⟩
    rw [slice, Fallible.run_bind_ok (Fallible.run_get s), if_pos hrange, hstart.2, encode_append,
      hs', Nat.add_sub_cancel_left, List.take_left]
    rfl
  rw [Fallible.run_bind_ok hslice]
  exact h s hs

theorem skipWhile {p : UInt8 → Bool} {q : Char → Bool} (h : Agree p q) :
    Reads bytes E rest (Parser.skipWhile bytes p) fun _ rest' => rest' = rest.dropWhile q := by
  refine Fallible.Spec.modify _ fun s hs => ⟨_, ?_, rfl⟩
  rw [hs.2, takeWhile_encode h]
  refine At.skip ?_
  rwa [List.takeWhile_append_dropWhile]

end Reads

/-- A loop that consumes something in every round but the last does not run out of rounds. -/
theorem Reads.loop {α β : Type} {E : Stop JsonSyntaxError → Prop} {body : β → Parser (β ⊕ α)}
    {Q : α → List Char → Prop} (I : β → List Char → Prop)
    (h : ∀ b rest, I b rest → Reads bytes E rest (body b) fun r rest' =>
      r.elim (fun b' => I b' rest' ∧ rest'.length < rest.length) (Q · rest'))
    {b : β} {rest : List Char} (hb : I b rest) :
    Reads bytes E rest (Fallible.loop .panic (bytes.length + 1) b body) Q := by
  let J (n : ℕ) (b : β) (s : ℕ) : Prop := ∃ rest, At bytes rest s ∧ rest.length < n ∧ I b rest
  have hround (n : ℕ) (b : β) : Fallible.Spec (J (n + 1) b) (body b)
      (fun r s => r.elim (fun b' => J n b' s) fun a => ∃ rest', At bytes rest' s ∧ Q a rest')
      fun e _ => E e := by
    rintro s ⟨rest, hs, hlt, hI⟩
    refine Fallible.Spec.conseq (h b rest hI) (fun _ hs => hs) ?_ (fun _ _ he => he) s hs
    rintro (b' | a) s' ⟨rest', hs', hr⟩
    · have hless : rest'.length < rest.length := hr.2
      exact ⟨rest', hs', by omega, hr.1⟩
    · exact ⟨rest', hs', hr⟩
  refine (Fallible.Spec.loop J (fun _ _ ⟨_, _, hlt, _⟩ => Nat.not_lt_zero _ hlt) hround
    (bytes.length + 1) b).conseq (fun s hs => ⟨rest, hs, ?_, hb⟩) (fun _ _ hq => hq)
      fun _ _ he => he
  have hlen := congrArg List.length hs.2
  have hle := length_encode_le rest
  rw [List.length_drop] at hlen
  omega

/-! ### Tests of bytes and of characters -/

theorem agree_isDigit : Agree Parser.isDigit Grammar.isDigit := by
  refine .of_ascii false (by decide +kernel) (fun c hc => ?_) (by decide +kernel)
  have hle : ¬ c ≤ '9' := fun h => hc (.of_le (by decide) h)
  rw [Grammar.isDigit, decide_eq_false hle, Bool.and_false]

theorem agree_isWhitespace : Agree Parser.isWhitespace Grammar.isWhitespace := by
  refine .of_ascii false (by decide +kernel) (fun c hc => ?_) (by decide +kernel)
  have hne {a : Char} (ha : IsAscii a) : (c == a) = false := beq_false_of_ne fun h => hc (h ▸ ha)
  rw [Grammar.isWhitespace, hne (by decide), hne (by decide), hne (by decide), hne (by decide)]
  rfl

theorem agree_isPlain : Agree isPlain isUnescaped := by
  refine .of_ascii true (by decide +kernel) (fun c hc => ?_) (by decide +kernel)
  have hne {a : Char} (ha : IsAscii a) : c ≠ a := fun h => hc (h ▸ ha)
  have hle : 0x20 ≤ c.toNat := Nat.le_of_not_lt fun h => hc (Nat.lt_trans h (by decide))
  simp only [isUnescaped, hle, hne (a := '"') (by decide), hne (a := '\\') (by decide), ne_eq,
    not_false_eq_true, decide_true, Bool.and_self]

theorem agree_hexDigit : Agree hexDigit hexValue := by
  refine .of_ascii none (by decide +kernel) (fun c hc => ?_) (by decide +kernel)
  have hle {a : Char} (ha : IsAscii a) : ¬ c ≤ a := fun h => hc (.of_le ha h)
  rw [hexValue, if_neg fun h => hle (by decide) h.2, if_neg fun h => hle (by decide) h.2,
    if_neg fun h => hle (by decide) h.2]

theorem agree_simpleEscape : Agree simpleEscape escapeChar := by
  refine .of_ascii none (by decide +kernel) (fun c hc => ?_) (by decide +kernel)
  unfold escapeChar
  split <;> first | rfl | exact absurd (by decide) hc

theorem any_isDigit {rest : List Char} :
    (rest.head?.map firstByte).any Parser.isDigit = rest.head?.any Grammar.isDigit := by
  cases rest with
  | nil => rfl
  | cons c rest => exact agree_isDigit.firstByte c

theorem eq_byte_iff {a : Char} (ha : IsAscii a) {rest : List Char} :
    rest.head?.map firstByte = some (byte a) ↔ ∃ rest', rest = a :: rest' := by
  rw [head?_map_firstByte_eq_iff ha, List.head?_eq_some_iff]

end

end Json.Parser

end NNIS
