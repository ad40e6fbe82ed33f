import NNIS.Memory.Tabulate
import NNIS.Semantics.Checked

/-!
# The layouts of Pascal vector projections

The bank of `nnis-core/src/pvp.rs`: one bit for each address and gate, packed address by address
into 64-bit words on the CPU and into 32-bit words on the GPU. A layout and a bank carry what their
constructors check. Words are kept in a vector, and a vector has at most `isizeMax` bytes: to
allocate a longer one is a panic.

## Main definitions

* `PvpPhysicalWordV1`, `PvpLayoutError`, `PvpLayoutAdapterV1`, `PvpLayoutAdapterV1.new`.
* `PvpBank`, `PvpCpuU64V1`, `PvpWgpuU32V1`, `PvpBank.new`.
* `PvpBank.toWgpuU32`, `PvpBank.toCpuU64` — the projections.
* `PvpBank.bit` — the bit of an address and a gate.
-/

set_option autoImplicit false

namespace NNIS

/-- The words in which a bank is packed. -/
inductive PvpPhysicalWordV1
  | cpuU64
  | wgpuU32
  deriving DecidableEq

namespace PvpPhysicalWordV1

@[reducible] def bits : PvpPhysicalWordV1 → ℕ
  | cpuU64 => 64
  | wgpuU32 => 32

def label : PvpPhysicalWordV1 → String
  | cpuU64 => "cpu-u64"
  | wgpuU32 => "wgpu-u32"

end PvpPhysicalWordV1

inductive PvpLayoutError
  | zeroAddresses
  | addressesNotPowerOfTwo (addresses : ℕ)
  | zeroGates
  | arithmeticOverflow
  | storageLengthMismatch (physical : PvpPhysicalWordV1) (expectedWords actualWords : ℕ)
  | nonZeroPadding (physical : PvpPhysicalWordV1) (address : ℕ)
  deriving DecidableEq

/-- The text of an error. -/
def PvpLayoutError.text : PvpLayoutError → String
  | zeroAddresses => "PVP address count must be non-zero"
  | addressesNotPowerOfTwo addresses => s!"PVP address count {addresses} is not a power of two"
  | zeroGates => "PVP gate count must be non-zero"
  | arithmeticOverflow => "PVP layout arithmetic overflow"
  | storageLengthMismatch physical expectedWords actualWords =>
    s!"PVP {physical.label} storage has {actualWords} words, expected {expectedWords}"
  | nonZeroPadding physical address =>
    s!"PVP {physical.label} row {address} contains non-zero canonical padding"

/-! ### Layouts -/

/-- A number of addresses and gates. -/
structure PvpLayoutAdapterV1 where
  addresses : ℕ
  gates : ℕ
  isPowerOfTwo : addresses.isPowerOfTwo
  gates_ne : gates ≠ 0
  fits : addresses * gates < wordLimit
  deriving DecidableEq

/-- The sum of a value and a divisor less one, divided. -/
def checkedCeilDiv (value divisor : ℕ) : Outcome PvpLayoutError ℕ :=
  .okOr ((checkedAdd value (divisor - 1)).map (· / divisor)) .arithmeticOverflow

/-- The number of trailing zeros of a 64-bit word. -/
def trailingZeros (value : ℕ) : ℕ := ((List.range 64).takeWhile fun i => !value.testBit i).length

namespace PvpLayoutAdapterV1

/-- Validate an address count and a gate count. A power of two has one bit in common with no number
below it. -/
def new (addresses gates : ℕ) : Outcome PvpLayoutError PvpLayoutAdapterV1 :=
  if hzero : addresses = 0 then .raise .zeroAddresses
  else if hpower : addresses &&& (addresses - 1) = 0 then
    if hgates : gates = 0 then .raise .zeroGates
    else if hfits : addresses * gates < wordLimit then
      .ok ⟨addresses, gates, (Nat.and_sub_one_eq_zero_iff_isPowerOfTwo hzero).1 hpower, hgates,
        hfits⟩
    else .raise .arithmeticOverflow
  else .raise (.addressesNotPowerOfTwo addresses)

variable (layout : PvpLayoutAdapterV1)

def stages : ℕ := trailingZeros layout.addresses

def logicalBits : Outcome PvpLayoutError ℕ :=
  .okOr (checkedMul layout.addresses layout.gates) .arithmeticOverflow

def wordsPerAddress (physical : PvpPhysicalWordV1) : Outcome PvpLayoutError ℕ :=
  checkedCeilDiv layout.gates physical.bits

/-- The words of an address, as a number. -/
def rowWords (physical : PvpPhysicalWordV1) : ℕ :=
  (layout.gates + (physical.bits - 1)) / physical.bits

def storageWords (physical : PvpPhysicalWordV1) : Outcome PvpLayoutError ℕ := do
  let words ← layout.wordsPerAddress physical
  .okOr (checkedMul layout.addresses words) .arithmeticOverflow

def storageBytes (physical : PvpPhysicalWordV1) : Outcome PvpLayoutError ℕ := do
  let words ← layout.storageWords physical
  .okOr (checkedMul words (physical.bits / 8)) .arithmeticOverflow

def paddingBits (physical : PvpPhysicalWordV1) : Outcome PvpLayoutError ℕ := do
  let words ← layout.storageWords physical
  let physicalBits ← .okOr (checkedMul words physical.bits) .arithmeticOverflow
  let logicalBits ← layout.logicalBits
  .okOr (checkedSub physicalBits logicalBits) .arithmeticOverflow

end PvpLayoutAdapterV1

/-! ### Banks -/

section

variable {physical : PvpPhysicalWordV1}

/-- Check the length of the words and that the bits behind the last gate of each address are
zero. -/
def validatePvp (physical : PvpPhysicalWordV1) (layout : PvpLayoutAdapterV1)
    (words : List (BitVec physical.bits)) : Outcome PvpLayoutError PUnit := do
  let expected ← layout.storageWords physical
  .require (words.length = expected) (.storageLengthMismatch physical expected words.length)
  let tail := layout.gates % physical.bits
  if tail = 0 then pure ⟨⟩ else do
    let mask := ~~~((BitVec.ofNat physical.bits 1 <<< tail) - BitVec.ofNat physical.bits 1)
    let rowWords ← layout.wordsPerAddress physical
    let last := rowWords - 1
    (List.range layout.addresses).forM fun address => do
      let word ← .index words (address * rowWords + last)
      .require (word &&& mask = 0) (.nonZeroPadding physical address)

def validateU64 (layout : PvpLayoutAdapterV1) (words : List (BitVec 64)) :
    Outcome PvpLayoutError PUnit :=
  validatePvp .cpuU64 layout words

def validateU32 (layout : PvpLayoutAdapterV1) (words : List (BitVec 32)) :
    Outcome PvpLayoutError PUnit :=
  validatePvp .wgpuU32 layout words

/-- A packed bank. -/
structure PvpBank (physical : PvpPhysicalWordV1) where
  layout : PvpLayoutAdapterV1
  words : List (BitVec physical.bits)
  valid : validatePvp physical layout words = .ok ⟨⟩
  fits : words.length * (physical.bits / 8) ≤ isizeMax

/-- A bank in 64-bit words. -/
abbrev PvpCpuU64V1 : Type := PvpBank .cpuU64

/-- A bank in 32-bit words. -/
abbrev PvpWgpuU32V1 : Type := PvpBank .wgpuU32

/-- A vector of zeros. -/
def zeroedWords {width : ℕ} (count : ℕ) : Outcome PvpLayoutError (List (BitVec width)) :=
  if count * (width / 8) ≤ isizeMax then .ok (List.replicate count 0) else .error .panic

namespace PvpBank

/-- Validate the words of a bank. A list that is longer than a vector can be is a panic. -/
def new (layout : PvpLayoutAdapterV1) (words : List (BitVec physical.bits)) :
    Outcome PvpLayoutError (PvpBank physical) :=
  if hfits : words.length * (physical.bits / 8) ≤ isizeMax then
    match hvalid : validatePvp physical layout words with
    | .ok _ => .ok ⟨layout, words, hvalid, hfits⟩
    | .error e => .error e
  else .error .panic

end PvpBank

end

/-! ### Projections -/

/-- The half of a 64-bit word that is written to a 32-bit word. -/
def projectWord (words : List (BitVec 64)) (sourceBase targetBase : ℕ) (output : List (BitVec 32))
    (targetWord : ℕ) : Outcome PvpLayoutError (List (BitVec 32)) := do
  let sourceWord := targetWord / 2
  let shift := targetWord % 2 * 32
  let word ← .index words (sourceBase + sourceWord)
  .modifyAt output (targetBase + targetWord) fun _ => (word >>> shift).setWidth 32

/-- The words of an address are projected. -/
def projectAddress (words : List (BitVec 64)) (sourceWords targetWords : ℕ)
    (output : List (BitVec 32)) (address : ℕ) : Outcome PvpLayoutError (List (BitVec 32)) := do
  let sourceBase ← .okOr (checkedMul address sourceWords) .arithmeticOverflow
  let targetBase ← .okOr (checkedMul address targetWords) .arithmeticOverflow
  (List.range targetWords).foldlM (projectWord words sourceBase targetBase) output

def PvpBank.toWgpuU32 (bank : PvpCpuU64V1) : Outcome PvpLayoutError PvpWgpuU32V1 := do
  let sourceWords ← bank.layout.wordsPerAddress .cpuU64
  let targetWords ← bank.layout.wordsPerAddress .wgpuU32
  let count ← bank.layout.storageWords .wgpuU32
  let output ← zeroedWords count
  let output ← (List.range bank.layout.addresses).foldlM
    (projectAddress bank.words sourceWords targetWords) output
  PvpBank.new bank.layout output

/-- A 32-bit word is joined to its half of a 64-bit word. -/
def joinWord (words : List (BitVec 32)) (sourceBase targetBase : ℕ) (output : List (BitVec 64))
    (sourceWord : ℕ) : Outcome PvpLayoutError (List (BitVec 64)) := do
  let targetWord := sourceWord / 2
  let shift := sourceWord % 2 * 32
  let word ← .index words (sourceBase + sourceWord)
  .modifyAt output (targetBase + targetWord) (· ||| word.setWidth 64 <<< shift)

/-- The words of an address are joined. -/
def joinAddress (words : List (BitVec 32)) (sourceWords targetWords : ℕ)
    (output : List (BitVec 64)) (address : ℕ) : Outcome PvpLayoutError (List (BitVec 64)) := do
  let sourceBase ← .okOr (checkedMul address sourceWords) .arithmeticOverflow
  let targetBase ← .okOr (checkedMul address targetWords) .arithmeticOverflow
  (List.range sourceWords).foldlM (joinWord words sourceBase targetBase) output

def PvpBank.toCpuU64 (bank : PvpWgpuU32V1) : Outcome PvpLayoutError PvpCpuU64V1 := do
  let sourceWords ← bank.layout.wordsPerAddress .wgpuU32
  let targetWords ← bank.layout.wordsPerAddress .cpuU64
  let count ← bank.layout.storageWords .cpuU64
  let output ← zeroedWords count
  let output ← (List.range bank.layout.addresses).foldlM
    (joinAddress bank.words sourceWords targetWords) output
  PvpBank.new bank.layout output

/-! ### The bits of a bank -/

namespace PvpBank

variable {physical : PvpPhysicalWordV1}

/-- The bit of an address at a position of its words. -/
def bit (bank : PvpBank physical) (address gate : ℕ) : Bool :=
  (bank.words.getD (address * bank.layout.rowWords physical + gate / physical.bits) 0).getLsbD
    (gate % physical.bits)

end PvpBank

end NNIS
