import Mathlib.Algebra.Group.Nat.Defs

/-!
# SHA-256

The incremental hash of `nnis-core/src/sha256.rs`. The bytes of a block that is not complete yet
are kept as a list; the length is counted modulo `2 ^ 64`.

## Main definitions

* `Sha256`, `Sha256.new`, `Sha256.update`, `Sha256.finalize`, `sha256`.

## Main results

* `length_sha256` — a digest has 32 bytes.
-/

set_option autoImplicit false

namespace NNIS

/-- The round constants. -/
def sha256K : List UInt32 :=
  [0x428a2f98, 0x71374491, 0xb5c0fbcf, 0xe9b5dba5, 0x3956c25b, 0x59f111f1, 0x923f82a4, 0xab1c5ed5,
    0xd807aa98, 0x12835b01, 0x243185be, 0x550c7dc3, 0x72be5d74, 0x80deb1fe, 0x9bdc06a7, 0xc19bf174,
    0xe49b69c1, 0xefbe4786, 0x0fc19dc6, 0x240ca1cc, 0x2de92c6f, 0x4a7484aa, 0x5cb0a9dc, 0x76f988da,
    0x983e5152, 0xa831c66d, 0xb00327c8, 0xbf597fc7, 0xc6e00bf3, 0xd5a79147, 0x06ca6351, 0x14292967,
    0x27b70a85, 0x2e1b2138, 0x4d2c6dfc, 0x53380d13, 0x650a7354, 0x766a0abb, 0x81c2c92e, 0x92722c85,
    0xa2bfe8a1, 0xa81a664b, 0xc24b8b70, 0xc76c51a3, 0xd192e819, 0xd6990624, 0xf40e3585, 0x106aa070,
    0x19a4c116, 0x1e376c08, 0x2748774c, 0x34b0bcb5, 0x391c0cb3, 0x4ed8aa4a, 0x5b9cca4f, 0x682e6ff3,
    0x748f82ee, 0x78a5636f, 0x84c87814, 0x8cc70208, 0x90befffa, 0xa4506ceb, 0xbef9a3f7, 0xc67178f2]

/-- The eight words of a chaining value. -/
structure Sha256State where
  a : UInt32
  b : UInt32
  c : UInt32
  d : UInt32
  e : UInt32
  f : UInt32
  g : UInt32
  h : UInt32
  deriving DecidableEq

namespace Sha256State

/-- The initial chaining value. -/
def h0 : Sha256State where
  a := 0x6a09e667
  b := 0xbb67ae85
  c := 0x3c6ef372
  d := 0xa54ff53a
  e := 0x510e527f
  f := 0x9b05688c
  g := 0x1f83d9ab
  h := 0x5be0cd19

def words (state : Sha256State) : List UInt32 :=
  [state.a, state.b, state.c, state.d, state.e, state.f, state.g, state.h]

end Sha256State

def rotateRight (x n : UInt32) : UInt32 := (x >>> n) ||| (x <<< (32 - n))

/-- The big-endian words of a block. -/
def bigEndianWords : List UInt8 → List UInt32
  | b₀ :: b₁ :: b₂ :: b₃ :: rest =>
    (b₀.toUInt32 <<< 24 ||| b₁.toUInt32 <<< 16 ||| b₂.toUInt32 <<< 8 ||| b₃.toUInt32) ::
      bigEndianWords rest
  | _ => []

/-- The message schedule with one more word. -/
def extendSchedule (w : List UInt32) (index : ℕ) : List UInt32 :=
  let w15 := w.getD (index - 15) 0
  let w2 := w.getD (index - 2) 0
  let s0 := rotateRight w15 7 ^^^ rotateRight w15 18 ^^^ (w15 >>> 3)
  let s1 := rotateRight w2 17 ^^^ rotateRight w2 19 ^^^ (w2 >>> 10)
  w ++ [w.getD (index - 16) 0 + s0 + w.getD (index - 7) 0 + s1]

/-- One round of the compression. -/
def compressRound (v : Sha256State) (k w : UInt32) : Sha256State :=
  let s1 := rotateRight v.e 6 ^^^ rotateRight v.e 11 ^^^ rotateRight v.e 25
  let choose := (v.e &&& v.f) ^^^ (~~~ v.e &&& v.g)
  let t1 := v.h + s1 + choose + k + w
  let s0 := rotateRight v.a 2 ^^^ rotateRight v.a 13 ^^^ rotateRight v.a 22
  let majority := (v.a &&& v.b) ^^^ (v.a &&& v.c) ^^^ (v.b &&& v.c)
  let t2 := s0 + majority
  { a := t1 + t2, b := v.a, c := v.b, d := v.c, e := v.d + t1, f := v.e, g := v.f, h := v.g }

/-- Fold one block of 64 bytes into a chaining value. -/
def compress (state : Sha256State) (block : List UInt8) : Sha256State :=
  let w := (List.range' 16 48).foldl extendSchedule (bigEndianWords block)
  let v := (sha256K.zip w).foldl (fun v kw => compressRound v kw.1 kw.2) state
  { a := state.a + v.a, b := state.b + v.b, c := state.c + v.c, d := state.d + v.d
    e := state.e + v.e, f := state.f + v.f, g := state.g + v.g, h := state.h + v.h }

/-- Incremental SHA-256 state: the buffered bytes are fewer than a block. -/
structure Sha256 where
  state : Sha256State
  buffer : List UInt8
  lengthBytes : UInt64
  deriving DecidableEq

namespace Sha256

/-- Fresh hasher. -/
def new : Sha256 := ⟨.h0, [], 0⟩

/-- Fold the complete blocks of some bytes, and return the remaining bytes. -/
def foldBlocks (state : Sha256State) (bytes : List UInt8) : Sha256State × List UInt8 :=
  if 64 ≤ bytes.length then foldBlocks (compress state (bytes.take 64)) (bytes.drop 64)
  else (state, bytes)
termination_by bytes.length
decreasing_by rw [List.length_drop]; omega

/-- Absorb bytes. -/
def update (hasher : Sha256) (bytes : List UInt8) : Sha256 :=
  let lengthBytes := hasher.lengthBytes + UInt64.ofNat bytes.length
  if hasher.buffer.length = 0 then
    let (state, rest) := foldBlocks hasher.state bytes
    { state, buffer := rest, lengthBytes }
  else
    let take := min (64 - hasher.buffer.length) bytes.length
    let buffer := hasher.buffer ++ bytes.take take
    if buffer.length < 64 then { state := hasher.state, buffer, lengthBytes }
    else
      let (state, rest) := foldBlocks (compress hasher.state buffer) (bytes.drop take)
      { state, buffer := rest, lengthBytes }

def beBytes32 (word : UInt32) : List UInt8 :=
  [(word >>> 24).toUInt8, (word >>> 16).toUInt8, (word >>> 8).toUInt8, word.toUInt8]

def beBytes64 (word : UInt64) : List UInt8 :=
  [(word >>> 56).toUInt8, (word >>> 48).toUInt8, (word >>> 40).toUInt8, (word >>> 32).toUInt8,
    (word >>> 24).toUInt8, (word >>> 16).toUInt8, (word >>> 8).toUInt8, word.toUInt8]

/-- Finish and return the digest. -/
def finalize (hasher : Sha256) : List UInt8 :=
  let bitLength := hasher.lengthBytes * 8
  let padLen := if hasher.buffer.length < 56 then 56 - hasher.buffer.length
    else 120 - hasher.buffer.length
  let padding := 0x80 :: List.replicate 71 0
  let padded := (hasher.update (padding.take padLen)).update (beBytes64 bitLength)
  padded.state.words.flatMap beBytes32

end Sha256

/-- One-shot SHA-256 digest. -/
def sha256 (bytes : List UInt8) : List UInt8 := (Sha256.new.update bytes).finalize

theorem length_sha256 (bytes : List UInt8) : (sha256 bytes).length = 32 := rfl

end NNIS
