import Mathlib.Data.List.Basic
import NNIS.Memory.Region
import NNIS.Numeric.Binary

/-!
# Little-endian words in byte lists

A single-precision word is stored as four bytes, the lowest first. A list of bytes is read as the
list of its complete words.

## Main definitions

* `F32.toLeBytes`, `F32.ofLeBytes` — one word.
* `F32.words`, `F32.bytes` — a list of words.

## Main results

* `F32.ofLeBytes_toLeBytes`, `F32.words_bytes` — reading back what was written.
* `F32.words_writeRegion` — a word written at its offset replaces that word and no other.
-/

set_option autoImplicit false

namespace NNIS

namespace F32

/-- The word stored in four bytes. -/
def ofLeBytes (b₀ b₁ b₂ b₃ : UInt8) : F32 :=
  Binary.ofBits (b₀.toNat + 2 ^ 8 * (b₁.toNat + 2 ^ 8 * (b₂.toNat + 2 ^ 8 * b₃.toNat)))

/-- The four bytes of a word. -/
def toLeBytes (x : F32) : List UInt8 :=
  let w := x.toBits
  [UInt8.ofNat w, UInt8.ofNat (w / 2 ^ 8), UInt8.ofNat (w / 2 ^ 16), UInt8.ofNat (w / 2 ^ 24)]

/-- The complete words of a list of bytes. -/
def words : List UInt8 → List F32
  | b₀ :: b₁ :: b₂ :: b₃ :: rest => ofLeBytes b₀ b₁ b₂ b₃ :: words rest
  | _ => []

/-- The bytes of a list of words. -/
def bytes (values : List F32) : List UInt8 := values.flatMap toLeBytes

@[simp] theorem length_toLeBytes (x : F32) : x.toLeBytes.length = 4 := rfl

/-- The bits of a word are read back from the word. -/
theorem toBits_ofBits {w : ℕ} (h : w < 2 ^ 32) : (Binary.ofBits w : F32).toBits = w := by
  have hpatterns : binary32.patterns = 2 ^ 31 := rfl
  rw [Binary.toBits, Binary.ofBits]
  simp only [hpatterns]
  rcases Nat.lt_or_ge w (2 ^ 31) with hlow | hhigh
  · rw [Nat.div_eq_of_lt hlow, Nat.mod_eq_of_lt hlow]
    simp
  · have hdiv : w / 2 ^ 31 = 1 := by omega
    rw [hdiv]
    simp only [Nat.one_mod, decide_true, Bool.toNat_true]
    omega

/-- A word is read back from its bytes. -/
theorem ofLeBytes_toLeBytes (x : F32) :
    ofLeBytes (UInt8.ofNat x.toBits) (UInt8.ofNat (x.toBits / 2 ^ 8))
      (UInt8.ofNat (x.toBits / 2 ^ 16)) (UInt8.ofNat (x.toBits / 2 ^ 24)) = x := by
  have hlt : x.toBits < 2 ^ 32 := x.toBits_lt
  have hbits : x.toBits % 2 ^ 8 + 2 ^ 8 * (x.toBits / 2 ^ 8 % 2 ^ 8 +
      2 ^ 8 * (x.toBits / 2 ^ 16 % 2 ^ 8 + 2 ^ 8 * (x.toBits / 2 ^ 24 % 2 ^ 8))) = x.toBits := by
    omega
  simp only [ofLeBytes, UInt8.toNat_ofNat', hbits, Binary.ofBits_toBits]

theorem words_toLeBytes_append (x : F32) (rest : List UInt8) :
    words (x.toLeBytes ++ rest) = x :: words rest := by
  change ofLeBytes _ _ _ _ :: words rest = _
  rw [ofLeBytes_toLeBytes]

@[simp] theorem words_bytes (values : List F32) : words (bytes values) = values := by
  induction values with
  | nil => rfl
  | cons x values ih =>
    rw [bytes, List.flatMap_cons, words_toLeBytes_append]
    exact congrArg _ ih

@[simp] theorem length_bytes (values : List F32) : (bytes values).length = values.length * 4 := by
  induction values with
  | nil => rfl
  | cons x values ih =>
    rw [bytes, List.flatMap_cons, List.length_append, length_toLeBytes, List.length_cons]
    change 4 + (bytes values).length = _
    omega

/-- The words from an index on are stored from its offset on. -/
theorem drop_bytes (values : List F32) (n : ℕ) :
    (bytes values).drop (n * 4) = bytes (values.drop n) := by
  induction n generalizing values with
  | zero => rw [Nat.zero_mul, List.drop_zero, List.drop_zero]
  | succ n ih =>
    cases values with
    | nil => rw [List.drop_nil]; exact List.drop_nil
    | cons x values =>
      have hsplit : bytes (x :: values) = x.toLeBytes ++ bytes values := by
        rw [bytes, List.flatMap_cons, bytes]
      rw [hsplit, List.drop_succ_cons, ← ih, Nat.succ_mul, Nat.add_comm, ← List.drop_drop,
        List.drop_left' (length_toLeBytes x)]

/-- The words before an index are stored before its offset. -/
theorem take_bytes (values : List F32) (n : ℕ) :
    (bytes values).take (n * 4) = bytes (values.take n) := by
  induction n generalizing values with
  | zero => rw [Nat.zero_mul, List.take_zero, List.take_zero]; rfl
  | succ n ih =>
    cases values with
    | nil => rw [List.take_nil]; exact List.take_nil
    | cons x values =>
      have hsplit : ∀ values, bytes (x :: values) = x.toLeBytes ++ bytes values := fun values => by
        rw [bytes, List.flatMap_cons, bytes]
      rw [hsplit, List.take_succ_cons, hsplit, ← ih, Nat.succ_mul, Nat.add_comm, List.take_append,
        length_toLeBytes, Nat.add_sub_cancel_left, List.take_of_length_le]
      rw [length_toLeBytes]
      omega

/-- The bytes of consecutive words. -/
theorem region_bytes (values : List F32) (first size : ℕ) :
    region (bytes values) (first * 4) (size * 4) = bytes (region values first size) := by
  rw [region, drop_bytes, take_bytes, region]

theorem length_words (data : List UInt8) : (words data).length = data.length / 4 := by
  fun_induction words data with
  | case1 b₀ b₁ b₂ b₃ rest ih =>
    simp only [List.length_cons, ih]
    omega
  | case2 data h =>
    have hlen : data.length < 4 := by
      match data, h with
      | [], _ | [_], _ | [_, _], _ | [_, _, _], _ => simp
      | b₀ :: b₁ :: b₂ :: b₃ :: rest, h => exact (h b₀ b₁ b₂ b₃ rest rfl).elim
    rw [List.length_nil, Nat.div_eq_of_lt hlen]

private theorem exists_eq_cons_of_words_pos {data : List UInt8} (h : 0 < (words data).length) :
    ∃ b₀ b₁ b₂ b₃ rest, data = b₀ :: b₁ :: b₂ :: b₃ :: rest := by
  rcases data with - | ⟨b₀, - | ⟨b₁, - | ⟨b₂, - | ⟨b₃, rest⟩⟩⟩⟩
  · cases h
  · cases h
  · cases h
  · cases h
  · exact ⟨b₀, b₁, b₂, b₃, rest, rfl⟩

/-- A word written at its offset replaces that word and no other. -/
theorem words_writeRegion {data : List UInt8} {i : ℕ} (h : i < (words data).length) (x : F32) :
    words (writeRegion data (i * 4) x.toLeBytes) = (words data).set i x := by
  have hfit : i * 4 + x.toLeBytes.length ≤ data.length := by
    rw [length_words] at h
    rw [length_toLeBytes]
    omega
  rw [writeRegion, if_pos hfit, length_toLeBytes]
  clear hfit
  induction i generalizing data with
  | zero =>
    obtain ⟨b₀, b₁, b₂, b₃, rest, rfl⟩ := exists_eq_cons_of_words_pos h
    rw [Nat.zero_mul, List.take_zero, List.nil_append, words_toLeBytes_append, words,
      List.set_cons_zero]
    rfl
  | succ i ih =>
    obtain ⟨b₀, b₁, b₂, b₃, rest, rfl⟩ := exists_eq_cons_of_words_pos (Nat.zero_lt_of_lt h)
    rw [words, List.length_cons] at h
    rw [words, List.set_cons_succ, ← ih (Nat.lt_of_succ_lt_succ h), Nat.succ_mul]
    rfl

end F32

end NNIS
