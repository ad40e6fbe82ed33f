import Mathlib.Data.Nat.NthRoot.Defs
import Mathlib.Algebra.Group.Nat.Defs

/-!
# The secure hash standard

SHA-256 as FIPS 180-4 defines it, on messages of whole bytes: the functions and constants, the
message schedule, the rounds of a block, the padding and the fold over the blocks. The constants are
given by the roots of primes, and the length of the message is taken modulo `2 ^ 64`.

## Main definitions

* `Fips180.schedule`, `Fips180.compress` — one block.
* `Fips180.pad`, `Fips180.hashBlocks`, `Fips180.sha256` — a message.

## Main results

* `Fips180.schedule_of_lt`, `Fips180.schedule_of_le` — the words of a schedule.
* `Fips180.wordAt_append`, `Fips180.wordAt_drop` — the words of a part of a message.
-/

set_option autoImplicit false

namespace NNIS

namespace Fips180

/-- A word of 32 bits. -/
abbrev Word := BitVec 32

/-! ### Functions -/

/-- The choice of the second or the third argument by the first. -/
def ch (x y z : Word) : Word := (x &&& y) ^^^ (~~~x &&& z)

/-- The majority of three arguments. -/
def maj (x y z : Word) : Word := (x &&& y) ^^^ (x &&& z) ^^^ (y &&& z)

def bigSigma0 (x : Word) : Word := x.rotateRight 2 ^^^ x.rotateRight 13 ^^^ x.rotateRight 22

def bigSigma1 (x : Word) : Word := x.rotateRight 6 ^^^ x.rotateRight 11 ^^^ x.rotateRight 25

def smallSigma0 (x : Word) : Word := x.rotateRight 7 ^^^ x.rotateRight 18 ^^^ x >>> 3

def smallSigma1 (x : Word) : Word := x.rotateRight 17 ^^^ x.rotateRight 19 ^^^ x >>> 10

/-! ### Constants -/

/-- Trial division. -/
def isPrime (p : ℕ) : Bool := decide (2 ≤ p) && (List.range' 2 (p - 2)).all fun d => p % d != 0

/-- The first 64 primes. -/
def primes : List ℕ := (List.range 312).filter isPrime

/-- The first 32 bits of the fractional part of the cube root of a prime. -/
def cubeRootBits (p : ℕ) : Word := BitVec.ofNat 32 (Nat.nthRoot 3 (p * 2 ^ 96))

/-- The first 32 bits of the fractional part of the square root of a prime. -/
def squareRootBits (p : ℕ) : Word := BitVec.ofNat 32 (Nat.nthRoot 2 (p * 2 ^ 64))

/-- The constant of a round. -/
def k (t : ℕ) : Word := cubeRootBits (primes.getD t 0)

/-! ### One block -/

/-- The working variables, and the words of a hash value. -/
@[ext] structure Work where
  a : Word
  b : Word
  c : Word
  d : Word
  e : Word
  f : Word
  g : Word
  h : Word

/-- The initial hash value. -/
def initial : Work where
  a := squareRootBits 2
  b := squareRootBits 3
  c := squareRootBits 5
  d := squareRootBits 7
  e := squareRootBits 11
  f := squareRootBits 13
  g := squareRootBits 17
  h := squareRootBits 19

/-- The message schedule of the sixteen words of a block. -/
def schedule (m : ℕ → Word) (t : ℕ) : Word :=
  if t < 16 then m t
  else
    smallSigma1 (schedule m (t - 2)) + schedule m (t - 7) + smallSigma0 (schedule m (t - 15)) +
      schedule m (t - 16)

/-- One round. -/
def round (v : Work) (k w : Word) : Work :=
  let t1 := v.h + bigSigma1 v.e + ch v.e v.f v.g + k + w
  let t2 := bigSigma0 v.a + maj v.a v.b v.c
  { a := t1 + t2, b := v.a, c := v.b, d := v.c, e := v.d + t1, f := v.e, g := v.f, h := v.g }

/-- The working variables after a number of rounds. -/
def rounds (v : Work) (w : ℕ → Word) : ℕ → Work
  | 0 => v
  | t + 1 => round (rounds v w t) (k t) (w t)

/-- The sum of two hash values. -/
def Work.add (u v : Work) : Work where
  a := u.a + v.a
  b := u.b + v.b
  c := u.c + v.c
  d := u.d + v.d
  e := u.e + v.e
  f := u.f + v.f
  g := u.g + v.g
  h := u.h + v.h

/-- The hash value after a block. -/
def compress (v : Work) (m : ℕ → Word) : Work := v.add (rounds v (schedule m) 64)

/-! ### A message -/

/-- A byte of a word of a message. -/
def byteAt (message : List UInt8) (t j : ℕ) : BitVec 8 := (message.getD (4 * t + j) 0).toBitVec

/-- A word of a message of bytes. -/
def wordAt (message : List UInt8) (t : ℕ) : Word :=
  byteAt message t 0 ++ byteAt message t 1 ++ byteAt message t 2 ++ byteAt message t 3

/-- The number of zero bytes of the padding. -/
def padZeros (length : ℕ) : ℕ := (119 - length % 64) % 64

/-- The bytes of the length in bits, in 64 bits. -/
def lengthBytes (length : ℕ) : List UInt8 :=
  (List.range 8).map fun i =>
    UInt8.ofBitVec ((BitVec.ofNat 64 (8 * length)).extractLsb' (8 * (7 - i)) 8)

/-- A message with a one bit, zero bits and its length. -/
def pad (message : List UInt8) : List UInt8 :=
  message ++ (0x80 :: List.replicate (padZeros message.length) 0) ++ lengthBytes message.length

/-- The hash value after a number of blocks of a padded message. -/
def hashBlocks (v : Work) (padded : List UInt8) : ℕ → Work
  | 0 => v
  | i + 1 => compress (hashBlocks v padded i) fun t => wordAt padded (16 * i + t)

/-- The bytes of a word. -/
def wordBytes (w : Word) : List UInt8 :=
  (List.range 4).map fun i => UInt8.ofBitVec (w.extractLsb' (8 * (3 - i)) 8)

/-- The words of a hash value. -/
def Work.words (v : Work) : List Word := [v.a, v.b, v.c, v.d, v.e, v.f, v.g, v.h]

/-- The digest of a message. -/
def sha256 (message : List UInt8) : List UInt8 :=
  (hashBlocks initial (pad message) ((pad message).length / 64)).words.flatMap wordBytes

/-! ### Lemmas -/

theorem schedule_of_lt (m : ℕ → Word) {t : ℕ} (h : t < 16) : schedule m t = m t := by
  rw [schedule, if_pos h]

theorem schedule_of_le (m : ℕ → Word) {t : ℕ} (h : 16 ≤ t) :
    schedule m t = smallSigma1 (schedule m (t - 2)) + schedule m (t - 7) +
      smallSigma0 (schedule m (t - 15)) + schedule m (t - 16) := by
  rw [schedule, if_neg (Nat.not_lt.2 h)]

/-- Words of a message with bytes after it. -/
theorem wordAt_append {message : List UInt8} (rest : List UInt8) {t : ℕ}
    (h : 4 * t + 3 < message.length) : wordAt (message ++ rest) t = wordAt message t := by
  have hbyte : ∀ j ≤ 3, byteAt (message ++ rest) t j = byteAt message t j := by
    intro j hj
    rw [byteAt, byteAt, List.getD_eq_getElem?_getD, List.getD_eq_getElem?_getD,
      List.getElem?_append_left (by omega)]
  rw [wordAt, wordAt, hbyte 0 (by omega), hbyte 1 (by omega), hbyte 2 (by omega),
    hbyte 3 (by omega)]

theorem wordAt_drop (message : List UInt8) (i t : ℕ) :
    wordAt (message.drop (64 * i)) t = wordAt message (16 * i + t) := by
  have hbyte : ∀ j, byteAt (message.drop (64 * i)) t j = byteAt message (16 * i + t) j := by
    intro j
    have hindex : 64 * i + (4 * t + j) = 4 * (16 * i + t) + j := by omega
    rw [byteAt, byteAt, List.getD_eq_getElem?_getD, List.getD_eq_getElem?_getD, List.getElem?_drop,
      hindex]
  rw [wordAt, wordAt, hbyte 0, hbyte 1, hbyte 2, hbyte 3]

end Fips180

end NNIS
