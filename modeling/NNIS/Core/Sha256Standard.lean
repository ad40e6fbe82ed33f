import Mathlib.Tactic.Set
import NNIS.Core.Sha256
import NNIS.Hash.Fips180

/-!
# SHA-256 follows the standard

The compression of a block is that of the standard, and an incremental hasher is at every moment the
fold of the complete blocks of what it has absorbed, with the remaining bytes buffered. So the
digest does not depend on the pieces in which a message is absorbed, and is that of the standard.

## Main definitions

* `Sha256State.toWork` — a chaining value as words of the standard.
* `Sha256.Absorbed` — a hasher has absorbed some bytes.

## Main results

* `compress_toWork` — one block.
* `Sha256.update_eq`, `Sha256.absorbed_foldl` — one update, any number of them.
* `Sha256.finalize_foldl_update` — the digest of the pieces of a message.
-/

set_option autoImplicit false

namespace NNIS

/-! ### One block -/

namespace Sha256State

/-- The words of a chaining value. -/
def toWork (state : Sha256State) : Fips180.Work where
  a := state.a.toBitVec
  b := state.b.toBitVec
  c := state.c.toBitVec
  d := state.d.toBitVec
  e := state.e.toBitVec
  f := state.f.toBitVec
  g := state.g.toBitVec
  h := state.h.toBitVec

end Sha256State

theorem compressRound_toWork (v : Sha256State) (k w : UInt32) :
    (compressRound v k w).toWork = Fips180.round v.toWork k.toBitVec w.toBitVec := rfl

theorem h0_toWork : Sha256State.h0.toWork = Fips180.initial := by
  refine Fips180.Work.ext ?_ ?_ ?_ ?_ ?_ ?_ ?_ ?_ <;> decide +kernel

theorem sha256K_eq : sha256K.map UInt32.toBitVec = (List.range 64).map Fips180.k := by
  decide +kernel

/-- Four bytes make a word, the first one at its high end. -/
theorem toBitVec_bigEndian (b₀ b₁ b₂ b₃ : UInt8) :
    (b₀.toUInt32 <<< 24 ||| b₁.toUInt32 <<< 16 ||| b₂.toUInt32 <<< 8 ||| b₃.toUInt32).toBitVec =
      b₀.toBitVec ++ b₁.toBitVec ++ b₂.toBitVec ++ b₃.toBitVec := by
  apply BitVec.eq_of_getLsbD_eq
  intro i hi
  have h24 : ((24 : UInt32).toBitVec % 32).toNat = 24 := rfl
  have h16 : ((16 : UInt32).toBitVec % 32).toNat = 16 := rfl
  have h8 : ((8 : UInt32).toBitVec % 32).toNat = 8 := rfl
  have hout : ∀ (b : UInt8) (j : ℕ), 8 ≤ j → b.toBitVec.getLsbD j = false :=
    fun b j hj => BitVec.getLsbD_of_ge _ _ hj
  simp only [UInt32.toBitVec_or, UInt32.toBitVec_shiftLeft, UInt8.toBitVec_toUInt32,
    BitVec.getLsbD_or, BitVec.getLsbD_append, BitVec.shiftLeft_eq', h24, h16, h8,
    BitVec.getLsbD_shiftLeft, BitVec.getLsbD_setWidth, hi, decide_true, Bool.true_and]
  grind

theorem length_lt_of_not_bigEndian {bytes : List UInt8}
    (h : ∀ (b₀ b₁ b₂ b₃ : UInt8) (rest : List UInt8),
      bytes = b₀ :: b₁ :: b₂ :: b₃ :: rest → False) :
    bytes.length < 4 := by
  match bytes, h with
  | [], _ | [_], _ | [_, _], _ | [_, _, _], _ =>
    simp only [List.length_nil, List.length_cons]
    omega
  | b₀ :: b₁ :: b₂ :: b₃ :: rest, h => exact (h b₀ b₁ b₂ b₃ rest rfl).elim

theorem length_bigEndianWords (bytes : List UInt8) :
    (bigEndianWords bytes).length = bytes.length / 4 := by
  induction bytes using bigEndianWords.induct with
  | case1 b₀ b₁ b₂ b₃ rest ih =>
    rw [bigEndianWords, List.length_cons, ih]
    simp only [List.length_cons]
    omega
  | case2 bytes h =>
    rw [bigEndianWords.eq_2 bytes h, Nat.div_eq_of_lt (length_lt_of_not_bigEndian h)]
    rfl

/-- The words of a block. -/
theorem toBitVec_bigEndianWords {bytes : List UInt8} {t : ℕ} (h : 4 * t + 3 < bytes.length) :
    ((bigEndianWords bytes).getD t 0).toBitVec = Fips180.wordAt bytes t := by
  induction bytes using bigEndianWords.induct generalizing t with
  | case1 b₀ b₁ b₂ b₃ rest ih =>
    rw [bigEndianWords]
    cases t with
    | zero => exact toBitVec_bigEndian b₀ b₁ b₂ b₃
    | succ t =>
      rw [List.getD_cons_succ, ih (by simp only [List.length_cons] at h; omega)]
      rfl
  | case2 bytes hshort => exact absurd (length_lt_of_not_bigEndian hshort) (by omega)

/-- A word of the message schedule is made of the same words as in the standard, added in another
order. -/
theorem toBitVec_scheduleWord (w16 w15 w7 w2 : UInt32) :
    (w16 + (rotateRight w15 7 ^^^ rotateRight w15 18 ^^^ (w15 >>> 3)) + w7 +
      (rotateRight w2 17 ^^^ rotateRight w2 19 ^^^ (w2 >>> 10))).toBitVec =
      Fips180.smallSigma1 w2.toBitVec + w7.toBitVec + Fips180.smallSigma0 w15.toBitVec +
        w16.toBitVec := by
  have h0 : (rotateRight w15 7 ^^^ rotateRight w15 18 ^^^ (w15 >>> 3)).toBitVec =
    Fips180.smallSigma0 w15.toBitVec := rfl
  have h1 : (rotateRight w2 17 ^^^ rotateRight w2 19 ^^^ (w2 >>> 10)).toBitVec =
    Fips180.smallSigma1 w2.toBitVec := rfl
  rw [UInt32.toBitVec_add, UInt32.toBitVec_add, UInt32.toBitVec_add, h0, h1]
  ac_rfl

/-- The message schedule after a number of its steps. -/
theorem extendSchedule_spec (words : List UInt32) (hlength : words.length = 16)
    (m : ℕ → Fips180.Word) (hwords : ∀ t < 16, (words.getD t 0).toBitVec = m t) (n : ℕ) :
    ((List.range' 16 n).foldl extendSchedule words).length = 16 + n ∧
      ∀ t < 16 + n, (((List.range' 16 n).foldl extendSchedule words).getD t 0).toBitVec =
        Fips180.schedule m t := by
  induction n with
  | zero => exact ⟨hlength, fun t ht => by rw [Fips180.schedule_of_lt m ht]; exact hwords t ht⟩
  | succ n ih =>
    obtain ⟨ihlength, ihwords⟩ := ih
    rw [List.range'_concat, Nat.one_mul, List.foldl_append, List.foldl_cons, List.foldl_nil]
    set w := (List.range' 16 n).foldl extendSchedule words with hw
    refine ⟨by rw [extendSchedule, List.length_append, ihlength]; rfl, fun t ht => ?_⟩
    rw [extendSchedule, List.getD_eq_getElem?_getD]
    rcases Nat.lt_or_ge t (16 + n) with hlt | hge
    · rw [List.getElem?_append_left (ihlength ▸ hlt), ← List.getD_eq_getElem?_getD]
      exact ihwords t hlt
    · obtain rfl : t = 16 + n := by omega
      rw [List.getElem?_append_right (Nat.le_of_eq ihlength), ihlength, Nat.sub_self,
        List.getElem?_cons_zero, Option.getD_some, Fips180.schedule_of_le m (Nat.le_add_right 16 n),
        ← ihwords (16 + n - 2) (by omega), ← ihwords (16 + n - 7) (by omega),
        ← ihwords (16 + n - 15) (by omega), ← ihwords (16 + n - 16) (by omega)]
      exact toBitVec_scheduleWord _ _ _ _

/-- The working variables after a number of rounds, from constants and words of the standard. -/
theorem foldl_compressRound_toWork (state : Sha256State) (ks ws : List UInt32)
    (w : ℕ → Fips180.Word) (n : ℕ) (hks : ∀ t < n, (ks.getD t 0).toBitVec = Fips180.k t)
    (hws : ∀ t < n, (ws.getD t 0).toBitVec = w t) :
    ((List.range n).foldl (fun v t => compressRound v (ks.getD t 0) (ws.getD t 0)) state).toWork =
      Fips180.rounds state.toWork w n := by
  induction n with
  | zero => rfl
  | succ n ih =>
    rw [List.range_succ, List.foldl_append, List.foldl_cons, List.foldl_nil, compressRound_toWork,
      ih (fun t ht => hks t (by omega)) (fun t ht => hws t (by omega)), hks n n.lt_succ_self,
      hws n n.lt_succ_self, Fips180.rounds]

theorem zip_eq_map_range {α β : Type} (as : List α) (bs : List β) (a : α) (b : β) (n : ℕ)
    (has : as.length = n) (hbs : bs.length = n) :
    as.zip bs = (List.range n).map fun t => (as.getD t a, bs.getD t b) := by
  refine List.ext_getElem (by simp [has, hbs]) fun t h₁ h₂ => ?_
  have ht : t < n := by simpa using h₂
  simp [List.getD_eq_getElem?_getD, has, hbs, ht]

theorem toBitVec_sha256K {t : ℕ} (h : t < 64) : (sha256K.getD t 0).toBitVec = Fips180.k t := by
  have hmap := congrArg (fun words => words.getD t 0) sha256K_eq
  have hlength : sha256K.length = 64 := rfl
  simpa [List.getD_eq_getElem?_getD, h, hlength] using hmap

theorem compress_eq_foldl (state : Sha256State) (block : List UInt8) :
    (compress state block).toWork =
      state.toWork.add ((sha256K.zip ((List.range' 16 48).foldl extendSchedule
        (bigEndianWords block))).foldl (fun v kw => compressRound v kw.1 kw.2) state).toWork := by
  simp only [compress, Sha256State.toWork, Fips180.Work.add, UInt32.toBitVec_add]

/-- The compression of a block is that of the standard, on the words of the block. -/
theorem compress_toWork (state : Sha256State) {block : List UInt8} (h : block.length = 64)
    {m : ℕ → Fips180.Word} (hm : ∀ t < 16, Fips180.wordAt block t = m t) :
    (compress state block).toWork = Fips180.compress state.toWork m := by
  obtain ⟨hlength, hwords⟩ := extendSchedule_spec (bigEndianWords block)
    (by rw [length_bigEndianWords, h]) m
    (fun t ht => (toBitVec_bigEndianWords (by omega)).trans (hm t ht)) 48
  have hrounds := foldl_compressRound_toWork state sha256K _ _ 64
    (fun t ht => toBitVec_sha256K ht) hwords
  rw [Fips180.compress, ← hrounds, compress_eq_foldl,
    zip_eq_map_range sha256K _ 0 0 64 rfl hlength, List.foldl_map]

/-! ### The blocks of a message -/

namespace Fips180

/-- The first block of some blocks comes first. -/
theorem hashBlocks_succ_left (v : Work) (padded : List UInt8) (n : ℕ) :
    hashBlocks v padded (n + 1) =
      hashBlocks (compress v fun t => wordAt padded t) (padded.drop 64) n := by
  induction n with
  | zero => rw [hashBlocks, hashBlocks, hashBlocks]; simp only [Nat.mul_zero, Nat.zero_add]
  | succ n ih =>
    have hblock : (fun t => wordAt (padded.drop 64) (16 * n + t)) =
        fun t => wordAt padded (16 * (n + 1) + t) := by
      funext t
      have hword := wordAt_drop padded 1 (16 * n + t)
      rw [Nat.mul_one, Nat.mul_one] at hword
      rw [hword]
      congr 1
      omega
    rw [hashBlocks, ih, hashBlocks, hblock]

end Fips180

namespace Sha256

/-- Fewer bytes than a block remain, those after the whole blocks. -/
theorem length_foldBlocks (state : Sha256State) (bytes : List UInt8) :
    (foldBlocks state bytes).2.length = bytes.length % 64 := by
  induction state, bytes using foldBlocks.induct with
  | case1 state bytes h ih =>
    rw [foldBlocks, if_pos h, ih, List.length_drop]
    omega
  | case2 state bytes h => rw [foldBlocks, if_neg h, Nat.mod_eq_of_lt (Nat.lt_of_not_le h)]

/-- Folding more bytes goes on from the remaining ones. -/
theorem foldBlocks_append (state : Sha256State) (bytes more : List UInt8) :
    foldBlocks state (bytes ++ more) =
      foldBlocks (foldBlocks state bytes).1 ((foldBlocks state bytes).2 ++ more) := by
  induction state, bytes using foldBlocks.induct with
  | case1 state bytes h ih =>
    rw [foldBlocks, if_pos (by rw [List.length_append]; omega), foldBlocks.eq_1 state bytes,
      if_pos h, List.take_append_of_le_length h, List.drop_append_of_le_length h, ih]
  | case2 state bytes h => rw [foldBlocks.eq_1 state bytes, if_neg h]

/-- The fold over the whole blocks is that of the standard. -/
theorem foldBlocks_toWork (state : Sha256State) (bytes : List UInt8) :
    (foldBlocks state bytes).1.toWork =
      Fips180.hashBlocks state.toWork bytes (bytes.length / 64) := by
  induction state, bytes using foldBlocks.induct with
  | case1 state bytes h ih =>
    have hcount : bytes.length / 64 = (bytes.drop 64).length / 64 + 1 := by
      rw [List.length_drop]
      omega
    have hlength : (bytes.take 64).length = 64 := by rw [List.length_take]; omega
    have hwords : ∀ t < 16, Fips180.wordAt (bytes.take 64) t = Fips180.wordAt bytes t := by
      intro t ht
      have hlt : 4 * t + 3 < (bytes.take 64).length := by omega
      rw [← Fips180.wordAt_append (bytes.drop 64) hlt, List.take_append_drop]
    rw [foldBlocks, if_pos h, ih, hcount, Fips180.hashBlocks_succ_left,
      compress_toWork state hlength hwords]
  | case2 state bytes h =>
    rw [foldBlocks, if_neg h, Nat.div_eq_of_lt (Nat.lt_of_not_le h), Fips180.hashBlocks]

/-! ### Absorbed bytes -/

/-- An update folds the blocks of the buffered bytes and the new ones. -/
theorem update_eq {hasher : Sha256} (h : hasher.buffer.length < 64) (bytes : List UInt8) :
    hasher.update bytes =
      { state := (foldBlocks hasher.state (hasher.buffer ++ bytes)).1
        buffer := (foldBlocks hasher.state (hasher.buffer ++ bytes)).2
        lengthBytes := hasher.lengthBytes + UInt64.ofNat bytes.length } := by
  rw [update]
  by_cases hempty : hasher.buffer.length = 0
  · rw [if_pos hempty, List.eq_nil_of_length_eq_zero hempty, List.nil_append]
  · rw [if_neg hempty]
    by_cases hfill : 64 - hasher.buffer.length ≤ bytes.length
    · have hlength : (hasher.buffer ++ bytes.take (64 - hasher.buffer.length)).length = 64 := by
        rw [List.length_append, List.length_take]
        omega
      have hlong : 64 ≤ (hasher.buffer ++ bytes).length := by
        rw [List.length_append]
        omega
      simp only [Nat.min_eq_left hfill, hlength, Nat.lt_irrefl, if_false]
      rw [foldBlocks.eq_1 hasher.state (hasher.buffer ++ bytes), if_pos hlong, List.take_append,
        List.drop_append, List.take_of_length_le (Nat.le_of_lt h),
        List.drop_of_length_le (Nat.le_of_lt h), List.nil_append]
    · have hshort : ¬ 64 ≤ (hasher.buffer ++ bytes).length := by
        rw [List.length_append]
        omega
      simp only [Nat.min_eq_right (Nat.le_of_not_le hfill), List.take_length]
      rw [if_pos (Nat.lt_of_not_le hshort), foldBlocks, if_neg hshort]

/-- A hasher has absorbed some bytes: it has folded their whole blocks, keeps the others and has
counted them all. -/
def Absorbed (hasher : Sha256) (bytes : List UInt8) : Prop :=
  (hasher.state, hasher.buffer) = foldBlocks .h0 bytes ∧
    hasher.lengthBytes = UInt64.ofNat bytes.length

theorem absorbed_new : new.Absorbed [] := by
  refine ⟨?_, rfl⟩
  rw [foldBlocks, if_neg (by decide)]
  rfl

namespace Absorbed

variable {hasher : Sha256} {bytes : List UInt8}

theorem length_buffer (h : hasher.Absorbed bytes) : hasher.buffer.length = bytes.length % 64 := by
  rw [← length_foldBlocks .h0 bytes, ← h.1]

theorem length_buffer_lt (h : hasher.Absorbed bytes) : hasher.buffer.length < 64 := by
  rw [h.length_buffer]
  exact Nat.mod_lt _ (by omega)

/-- An update absorbs its bytes after the earlier ones. -/
theorem update (h : hasher.Absorbed bytes) (more : List UInt8) :
    (hasher.update more).Absorbed (bytes ++ more) := by
  have hstate : hasher.state = (foldBlocks .h0 bytes).1 := congrArg Prod.fst h.1
  have hbuffer : hasher.buffer = (foldBlocks .h0 bytes).2 := congrArg Prod.snd h.1
  rw [update_eq h.length_buffer_lt]
  refine ⟨?_, ?_⟩
  · rw [foldBlocks_append .h0 bytes more, ← hstate, ← hbuffer]
  · rw [h.2, List.length_append, UInt64.ofNat_add]

/-- Updates absorb their pieces one after the other. -/
theorem foldl_update (h : hasher.Absorbed bytes) (pieces : List (List UInt8)) :
    (pieces.foldl Sha256.update hasher).Absorbed (bytes ++ pieces.flatten) := by
  induction pieces generalizing hasher bytes with
  | nil => rwa [List.flatten_nil, List.append_nil]
  | cons piece pieces ih =>
    rw [List.foldl_cons, List.flatten_cons, ← List.append_assoc]
    exact ih (h.update piece)

end Absorbed

theorem absorbed_foldl (pieces : List (List UInt8)) :
    (pieces.foldl update new).Absorbed pieces.flatten := absorbed_new.foldl_update pieces

/-! ### The digest -/

theorem beBytes64_eq (word : UInt64) :
    beBytes64 word = (List.range 8).map fun i =>
      UInt8.ofBitVec (word.toBitVec.extractLsb' (8 * (7 - i)) 8) := rfl

/-- The words of a state are written as those of the hash value. -/
theorem flatMap_beBytes32 (state : Sha256State) :
    state.words.flatMap beBytes32 = state.toWork.words.flatMap Fips180.wordBytes := rfl

/-- The length in bits, modulo `2 ^ 64`. -/
theorem beBytes64_lengthBytes (length : ℕ) :
    beBytes64 (UInt64.ofNat length * 8) = Fips180.lengthBytes length := by
  have hword : (UInt64.ofNat length * 8).toBitVec = BitVec.ofNat 64 (8 * length) := by
    rw [UInt64.toBitVec_mul, Nat.mul_comm, BitVec.ofNat_mul]
    rfl
  rw [beBytes64_eq, hword, Fips180.lengthBytes]

/-- The padding of a message whose last bytes are buffered. -/
theorem take_padding {length : ℕ} :
    ((0x80 : UInt8) :: List.replicate 71 0).take
        (if length % 64 < 56 then 56 - length % 64 else 120 - length % 64) =
      0x80 :: List.replicate (Fips180.padZeros length) 0 := by
  have hpad : (if length % 64 < 56 then 56 - length % 64 else 120 - length % 64) =
      Fips180.padZeros length + 1 := by
    rw [Fips180.padZeros]
    split <;> omega
  have hle : Fips180.padZeros length ≤ 71 := by
    rw [Fips180.padZeros]
    omega
  rw [hpad, List.take_succ_cons, List.take_replicate, Nat.min_eq_left hle]

/-- The digest of a hasher is that of the bytes it has absorbed. -/
theorem Absorbed.finalize {hasher : Sha256} {bytes : List UInt8} (h : hasher.Absorbed bytes) :
    hasher.finalize = Fips180.sha256 bytes := by
  have hpadded := ((h.update (0x80 :: List.replicate (Fips180.padZeros bytes.length) 0)).update
    (Fips180.lengthBytes bytes.length)).1
  have hstate := congrArg Prod.fst hpadded
  rw [Sha256.finalize, h.length_buffer, take_padding, h.2, beBytes64_lengthBytes]
  simp only at hstate ⊢
  rw [flatMap_beBytes32, hstate, foldBlocks_toWork, h0_toWork, Fips180.sha256, Fips180.pad]

/-- However a message is cut into pieces, fewer than a block of its bytes are buffered after them,
and the digest is that of the standard. -/
theorem finalize_foldl_update (pieces : List (List UInt8)) :
    (pieces.foldl update new).buffer.length < 64 ∧
      (pieces.foldl update new).finalize = Fips180.sha256 pieces.flatten :=
  ⟨(absorbed_foldl pieces).length_buffer_lt, (absorbed_foldl pieces).finalize⟩

end Sha256

end NNIS
