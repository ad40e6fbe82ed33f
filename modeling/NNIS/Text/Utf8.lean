import Mathlib.Data.List.TakeWhile
import NNIS.Text.Str

/-!
# Texts as bytes

A text in memory is its UTF-8 encoding. An ASCII character is one byte, its code; every byte of
any other character is at least `0x80`. A scan over bytes that looks for ASCII characters therefore
sees the characters of the text.

## Main definitions

* `Utf8.encode`, `Utf8.byte`, `Utf8.firstByte`.
* `Str.asBytes`, `Str.fromUtf8`.

## Main results

* `Str.fromUtf8_encode` — the encoding determines the text.
* `Utf8.firstByte_eq_byte_iff` — an ASCII character is recognised by its first byte.
* `Utf8.takeWhile_encode` — a scan over bytes as a scan over characters.
* `Utf8.encode_isPrefix_iff` — a comparison of bytes as a comparison of characters.
-/

set_option autoImplicit false

namespace NNIS

namespace Utf8

/-- The UTF-8 encoding of characters. -/
def encode (chars : List Char) : List UInt8 := chars.flatMap String.utf8EncodeChar

/-- An ASCII character as a byte. -/
def byte (c : Char) : UInt8 := UInt8.ofNat c.toNat

/-- The first byte of the encoding of a character. -/
def firstByte (c : Char) : UInt8 := (String.utf8EncodeChar c).headD 0

/-- Characters of one byte. -/
def IsAscii (c : Char) : Prop := c.toNat < 0x80

instance (c : Char) : Decidable (IsAscii c) := inferInstanceAs (Decidable (_ < _))

theorem isAscii_of_all {text : List Char} (h : (text.all fun c => decide (IsAscii c)) = true) :
    ∀ c ∈ text, IsAscii c :=
  fun c hc => of_decide_eq_true (List.all_eq_true.1 h c hc)

@[simp] theorem encode_nil : encode [] = [] := rfl

theorem encode_cons (c : Char) (chars : List Char) :
    encode (c :: chars) = String.utf8EncodeChar c ++ encode chars := rfl

theorem encode_append (chars chars' : List Char) :
    encode (chars ++ chars') = encode chars ++ encode chars' := List.flatMap_append

theorem utf8EncodeChar_of_isAscii {c : Char} (h : IsAscii c) :
    String.utf8EncodeChar c = [byte c] := by
  have hle : c.val.toNat ≤ 0x7F := Nat.le_of_lt_succ h
  rw [String.utf8EncodeChar, if_pos hle]
  rfl

theorem encode_cons_of_isAscii {c : Char} (h : IsAscii c) (chars : List Char) :
    encode (c :: chars) = byte c :: encode chars := by
  rw [encode_cons, utf8EncodeChar_of_isAscii h, List.singleton_append]

/-- The bytes of a character that is not ASCII are not ASCII. -/
theorem le_of_mem_utf8EncodeChar {c : Char} (h : ¬ IsAscii c) {b : UInt8}
    (hb : b ∈ String.utf8EncodeChar c) : 0x80 ≤ b.toNat := by
  have hgt : ¬ c.val.toNat ≤ 0x7F := fun hle => h (Nat.lt_succ_of_le hle)
  rw [String.utf8EncodeChar, if_neg hgt] at hb
  have hofNat {n : ℕ} (hnb : b = UInt8.ofNat n) (hn : 0x80 ≤ n) (hlt : n < 0x100) :
      0x80 ≤ b.toNat := by
    rw [hnb, UInt8.toNat_ofNat', Nat.mod_eq_of_lt hlt]
    exact hn
  split_ifs at hb with h₂ h₃
  · rw [List.mem_pair] at hb
    rcases hb with hb | hb <;> exact hofNat hb (by omega) (by omega)
  · simp only [List.mem_cons, List.not_mem_nil, or_false] at hb
    rcases hb with hb | hb | hb <;> exact hofNat hb (by omega) (by omega)
  · simp only [List.mem_cons, List.not_mem_nil, or_false] at hb
    rcases hb with hb | hb | hb | hb <;> exact hofNat hb (by omega) (by omega)

theorem utf8EncodeChar_eq_cons (c : Char) :
    ∃ tail, String.utf8EncodeChar c = firstByte c :: tail := by
  obtain ⟨b, tail, h⟩ := List.exists_cons_of_ne_nil (String.utf8EncodeChar_ne_nil (c := c))
  exact ⟨tail, by rw [firstByte, h, List.headD_cons]⟩

theorem firstByte_mem (c : Char) : firstByte c ∈ String.utf8EncodeChar c := by
  obtain ⟨tail, h⟩ := utf8EncodeChar_eq_cons c
  exact h ▸ List.mem_cons_self

theorem firstByte_of_isAscii {c : Char} (h : IsAscii c) : firstByte c = byte c := by
  rw [firstByte, utf8EncodeChar_of_isAscii h, List.headD_cons]

theorem toNat_byte {c : Char} (h : IsAscii c) : (byte c).toNat = c.toNat := by
  rw [byte, UInt8.toNat_ofNat', Nat.mod_eq_of_lt (Nat.lt_trans h (by decide))]

theorem IsAscii.of_le {c a : Char} (ha : IsAscii a) (h : c ≤ a) : IsAscii c :=
  Nat.lt_of_le_of_lt (UInt32.le_iff_toNat_le.1 h) ha

/-- An ASCII character is recognised by the first byte of its encoding. -/
theorem firstByte_eq_byte_iff {c a : Char} (ha : IsAscii a) : firstByte c = byte a ↔ c = a := by
  constructor
  · intro h
    by_cases hc : IsAscii c
    · rw [firstByte_of_isAscii hc] at h
      have hnat := congrArg UInt8.toNat h
      rw [toNat_byte hc, toNat_byte ha] at hnat
      exact Char.toNat_inj.1 hnat
    · have hle := le_of_mem_utf8EncodeChar hc (firstByte_mem c)
      rw [h, toNat_byte ha] at hle
      exact absurd ha (Nat.not_lt.2 hle)
  · rintro rfl
    exact firstByte_of_isAscii ha

/-- The first byte of a text tells whether it starts with an ASCII character. -/
theorem head?_map_firstByte_eq_iff {a : Char} (ha : IsAscii a) {chars : List Char} :
    chars.head?.map firstByte = some (byte a) ↔ chars.head? = some a := by
  cases chars with
  | nil => exact ⟨nofun, nofun⟩
  | cons c rest =>
    rw [List.head?_cons, Option.map_some, Option.some_inj, firstByte_eq_byte_iff ha,
      Option.some_inj]

theorem head?_encode (chars : List Char) : (encode chars).head? = chars.head?.map firstByte := by
  cases chars with
  | nil => rfl
  | cons c rest =>
    obtain ⟨tail, h⟩ := utf8EncodeChar_eq_cons c
    rw [encode_cons, h]
    rfl

/-! ### Scans -/

/-- A function of bytes and a function of characters that agree on every byte of every
character. -/
def Agree {β : Type} (p : UInt8 → β) (q : Char → β) : Prop :=
  ∀ c, ∀ b ∈ String.utf8EncodeChar c, p b = q c

/-- Functions agree if they do on ASCII and are constant, with the same value, outside it. -/
theorem Agree.of_ascii {β : Type} {p : UInt8 → β} {q : Char → β} (high : β)
    (hp : ∀ n < 0x100, 0x80 ≤ n → p (UInt8.ofNat n) = high)
    (hq : ∀ c : Char, ¬ IsAscii c → q c = high)
    (hlow : ∀ n < 0x80, p (UInt8.ofNat n) = q (Char.ofNat n)) : Agree p q := by
  intro c b hb
  by_cases hc : IsAscii c
  · rw [utf8EncodeChar_of_isAscii hc, List.mem_singleton] at hb
    rw [hb, byte, hlow _ hc, Char.ofNat_toNat]
  · have hhigh := hp b.toNat b.toNat_lt (le_of_mem_utf8EncodeChar hc hb)
    rw [UInt8.ofNat_toNat] at hhigh
    rw [hhigh, hq c hc]

theorem Agree.firstByte {β : Type} {p : UInt8 → β} {q : Char → β} (h : Agree p q) (c : Char) :
    p (firstByte c) = q c := h c _ (firstByte_mem c)

/-- A scan over bytes is a scan over characters. -/
theorem takeWhile_encode {p : UInt8 → Bool} {q : Char → Bool} (h : Agree p q)
    (chars : List Char) : (encode chars).takeWhile p = encode (chars.takeWhile q) := by
  induction chars with
  | nil => rfl
  | cons c chars ih =>
    by_cases hc : q c = true
    · rw [encode_cons, List.takeWhile_append_of_pos fun b hb => (h c b hb).trans hc, ih,
        List.takeWhile_cons_of_pos hc, encode_cons]
    · obtain ⟨tail, htail⟩ := utf8EncodeChar_eq_cons c
      have hfirst : ¬ p (Utf8.firstByte c) = true := h.firstByte c ▸ hc
      rw [encode_cons, htail, List.cons_append, List.takeWhile_cons_of_neg hfirst,
        List.takeWhile_cons_of_neg hc, encode_nil]

/-- Bytes that start with ASCII characters encode a text that does. -/
theorem encode_isPrefix_iff {text rest : List Char} (h : ∀ c ∈ text, IsAscii c) :
    encode text <+: encode rest ↔ text <+: rest := by
  induction text generalizing rest with
  | nil => exact ⟨fun _ => List.nil_prefix, fun _ => List.nil_prefix⟩
  | cons c text ih =>
    have hc := h c List.mem_cons_self
    rw [encode_cons_of_isAscii hc]
    cases rest with
    | nil => rw [encode_nil, List.prefix_nil, List.prefix_nil]; exact ⟨nofun, nofun⟩
    | cons d rest =>
      have hih : encode text <+: encode rest ↔ text <+: rest :=
        ih fun c' hc' => h c' (List.mem_cons_of_mem c hc')
      rw [List.cons_prefix_cons, ← hih]
      obtain ⟨tail, htail⟩ := utf8EncodeChar_eq_cons d
      constructor
      · intro hpre
        rw [encode_cons, htail, List.cons_append, List.cons_prefix_cons] at hpre
        obtain rfl := (firstByte_eq_byte_iff hc).1 hpre.1.symm
        rw [utf8EncodeChar_of_isAscii hc] at htail
        rw [← (List.cons.inj htail).2, List.nil_append] at hpre
        exact ⟨rfl, hpre.2⟩
      · rintro ⟨rfl, hpre⟩
        rw [encode_cons_of_isAscii hc, List.cons_prefix_cons]
        exact ⟨rfl, hpre⟩

theorem length_encode_le (chars : List Char) : chars.length ≤ (encode chars).length := by
  induction chars with
  | nil => exact Nat.le_refl 0
  | cons c chars ih =>
    obtain ⟨tail, h⟩ := utf8EncodeChar_eq_cons c
    rw [encode_cons, h, List.length_append, List.length_cons, List.length_cons]
    omega

end Utf8

namespace Str

/-- The bytes of a text. -/
def asBytes (value : String) : List UInt8 := Utf8.encode value.toList

/-- The text that bytes encode, if they encode one. -/
def fromUtf8 (bytes : List UInt8) : Option String := String.fromUTF8? bytes.toByteArray

theorem fromUtf8_encode (chars : List Char) :
    fromUtf8 (Utf8.encode chars) = some (String.ofList chars) := by
  have hvalid : (Utf8.encode chars).toByteArray.IsValidUTF8 := ByteArray.IsValidUTF8.intro chars rfl
  rw [fromUtf8, String.fromUTF8?, dif_pos hvalid]
  rfl

end Str

end NNIS
