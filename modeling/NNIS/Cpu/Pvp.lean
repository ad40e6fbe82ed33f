import NNIS.Core.PvpZeta
import NNIS.Semantics.Fallible

/-!
# The CPU session of Pascal vector projections

The session of `nnis-cpu/src/pvp.rs`: a bank of 64-bit words transformed in place. For each digit of
an address the loop over blocks visits the pairs of addresses that differ in it, and the word at the
upper address of a pair takes in the word at the lower one. A round that stops early leaves the
words as its completed rounds left them.

Pairs are visited in the order of their upper addresses, so within a stage the words below a bound
are those after the stage and the others those before it; no lower word of a pair is ever replaced.

## Main definitions

* `CpuPvpSessionV1`, `CpuPvpSessionV1.new`, `CpuPvpSessionV1.snapshot`,
  `CpuPvpSessionV1.executeSubsetZeta`.

## Main results

* `CpuPvpSessionV1.run_executeSubsetZeta` — an execution ends in the transform of the bank.
* `cpuPvp_executeSubsetZeta_correct` — the bits after one and after two executions.
-/

set_option autoImplicit false

namespace NNIS

/-- Accounting for one transform. -/
structure CpuPvpExecutionStatsV1 where
  stages : ℕ
  logicalGateXorOps : ℕ
  packedU64Updates : ℕ
  stateWords : ℕ
  stateBytes : ℕ
  scratchWords : ℕ
  executionIndex : ℕ
  deriving DecidableEq

/-- A bank that is transformed in place. -/
structure CpuPvpSessionV1 where
  layout : PvpLayoutAdapterV1
  words : List (BitVec 64)
  executions : ℕ

/-- A computation on a session. -/
abbrev CpuPvpM (α : Type) := Fallible CpuPvpSessionV1 (Stop PvpLayoutError) α

namespace CpuPvpSessionV1

def new (initial : PvpCpuU64V1) : CpuPvpSessionV1 := ⟨initial.layout, initial.words, 0⟩

def fromWords (layout : PvpLayoutAdapterV1) (words : List (BitVec 64)) :
    Outcome PvpLayoutError CpuPvpSessionV1 := do
  let initial : PvpCpuU64V1 ← PvpBank.new layout words
  pure ⟨layout, initial.words, 0⟩

def snapshot (session : CpuPvpSessionV1) : Outcome PvpLayoutError PvpCpuU64V1 :=
  PvpBank.new session.layout session.words

/-- A word takes in another. -/
def xorWord (sourceBase targetBase word : ℕ) : CpuPvpM PUnit := do
  let session ← .get
  let source ← .ofExcept (Outcome.index session.words (sourceBase + word))
  let words ← .ofExcept (Outcome.modifyAt session.words (targetBase + word) (· ^^^ source))
  .modify fun session => { session with words }

/-- The words at the upper address of a pair take in those at the lower one. -/
def xorAddress (wordsPerAddress stride blockStart offset : ℕ) : CpuPvpM PUnit := do
  let sourceAddress := blockStart + offset
  let targetAddress := sourceAddress + stride
  let sourceBase ← .ofExcept
    (Outcome.okOr (checkedMul sourceAddress wordsPerAddress) .arithmeticOverflow)
  let targetBase ← .ofExcept
    (Outcome.okOr (checkedMul targetAddress wordsPerAddress) .arithmeticOverflow)
  .forRange wordsPerAddress (xorWord sourceBase targetBase)

/-- A round of the loop over the blocks of a stage. -/
def blockRound (wordsPerAddress addresses stride block blockStart : ℕ) : CpuPvpM (ℕ ⊕ PUnit) :=
  if blockStart < addresses then do
    .forRange stride (xorAddress wordsPerAddress stride blockStart)
    let blockStart ← .ofExcept (Outcome.okOr (checkedAdd blockStart block) .arithmeticOverflow)
    pure (.inl blockStart)
  else pure (.inr ⟨⟩)

/-- A round of the loop over the stages. -/
def strideRound (wordsPerAddress addresses stride : ℕ) : CpuPvpM (ℕ ⊕ PUnit) :=
  if stride < addresses then do
    let block ← .ofExcept (Outcome.okOr (checkedMul stride 2) .arithmeticOverflow)
    .loop .panic (addresses + 1) 0 (blockRound wordsPerAddress addresses stride block)
    pure (.inl block)
  else pure (.inr ⟨⟩)

/-- Transform the bank in place. A stride is a power of two and a word, so there are at most 64
rounds before the last. -/
def executeSubsetZeta : CpuPvpM CpuPvpExecutionStatsV1 := do
  let layout := (← .get).layout
  let wordsPerAddress ← .ofExcept (layout.wordsPerAddress .cpuU64)
  .loop .panic 65 1 (strideRound wordsPerAddress layout.addresses)
  let _ ← .ofExcept (← .get).snapshot
  let executions ← .ofExcept
    (Outcome.okOr (checkedAdd (← .get).executions 1) .arithmeticOverflow)
  .modify fun session => { session with executions }
  let pairs := layout.addresses / 2 * layout.stages
  let stateWords ← .ofExcept (layout.storageWords .cpuU64)
  let stateBytes ← .ofExcept (layout.storageBytes .cpuU64)
  pure
    { stages := layout.stages
      logicalGateXorOps := pairs * layout.gates
      packedU64Updates := pairs * wordsPerAddress
      stateWords
      stateBytes
      scratchWords := 0
      executionIndex := executions }

end CpuPvpSessionV1

/-! ### The words during a stage -/

section

variable {width : ℕ} (rowWords k : ℕ) (f : ℕ → BitVec width)

/-- The words of which those below a bound are through with stage `k`. -/
def stagedBelow (bound i : ℕ) : BitVec width :=
  if i < bound then wordStage rowWords k f i else f i

variable {rowWords k f}

/-- The word at the upper address of a pair is replaced. -/
theorem update_stagedBelow {address word : ℕ} (hword : word < rowWords)
    (hlow : address.testBit k = false) (hhigh : (address + 2 ^ k).testBit k = true) :
    Function.update (stagedBelow rowWords k f ((address + 2 ^ k) * rowWords + word))
        ((address + 2 ^ k) * rowWords + word)
        (stagedBelow rowWords k f ((address + 2 ^ k) * rowWords + word)
            ((address + 2 ^ k) * rowWords + word) ^^^
          stagedBelow rowWords k f ((address + 2 ^ k) * rowWords + word)
            (address * rowWords + word)) =
      stagedBelow rowWords k f ((address + 2 ^ k) * rowWords + word + 1) := by
  have hsource : address * rowWords + word =
      (address + 2 ^ k) * rowWords + word - 2 ^ k * rowWords := by
    rw [Nat.add_mul]
    omega
  funext i
  rcases eq_or_ne i ((address + 2 ^ k) * rowWords + word) with rfl | hne
  · have hkeep : stagedBelow rowWords k f ((address + 2 ^ k) * rowWords + word)
        (address * rowWords + word) = f (address * rowWords + word) := by
      rw [stagedBelow, wordStage, row_div hword, hlow]
      simp
    rw [Function.update_self, hkeep, stagedBelow, if_neg (Nat.lt_irrefl _), stagedBelow,
      if_pos (Nat.lt_succ_self _), wordStage, row_div hword, if_pos hhigh, hsource]
  · rw [Function.update_of_ne hne]
    exact if_congr (by omega) rfl rfl

/-- Words at addresses without digit `k` are through with stage `k` from the start. -/
theorem stagedBelow_congr {bound bound' : ℕ} (hle : bound ≤ bound')
    (h : ∀ i, bound ≤ i → i < bound' → (i / rowWords).testBit k = false) :
    stagedBelow rowWords k f bound = stagedBelow rowWords k f bound' := by
  funext i
  rcases Nat.lt_or_ge i bound with hlt | hge
  · rw [stagedBelow, stagedBelow, if_pos hlt, if_pos (by omega)]
  · rcases Nat.lt_or_ge i bound' with hlt' | hge'
    · rw [stagedBelow, stagedBelow, if_neg (by omega), if_pos hlt', wordStage, h i hge hlt']
      simp
    · rw [stagedBelow, stagedBelow, if_neg (by omega), if_neg (by omega)]

/-- The lower addresses of a block do not have digit `k`. -/
theorem testBit_block {k offset : ℕ} (hoffset : offset < 2 ^ k) (c : ℕ) :
    (2 ^ (k + 1) * c + offset).testBit k = false := by
  have hlt : offset < 2 ^ (k + 1) := by rw [Nat.pow_succ]; omega
  rw [Nat.testBit_two_pow_mul_add c hlt, if_pos (Nat.lt_succ_self k),
    Nat.testBit_lt_two_pow hoffset]

/-- The upper addresses of a block have digit `k`. -/
theorem testBit_block_add {k offset : ℕ} (hoffset : offset < 2 ^ k) (c : ℕ) :
    (2 ^ (k + 1) * c + offset + 2 ^ k).testBit k = true := by
  have hlt : 2 ^ k + offset < 2 ^ (k + 1) := by rw [Nat.pow_succ]; omega
  rw [Nat.add_assoc, Nat.add_comm offset, Nat.testBit_two_pow_mul_add c hlt,
    if_pos (Nat.lt_succ_self k), Nat.testBit_two_pow_add_eq, Nat.testBit_lt_two_pow hoffset]
  rfl

end

/-! ### Executions -/

namespace CpuPvpSessionV1

/-- A session whose words are the values of a function. -/
def holding (layout : PvpLayoutAdapterV1) (executions : ℕ) (f : ℕ → BitVec 64) :
    CpuPvpSessionV1 :=
  ⟨layout, tabulate (layout.addresses * layout.rowWords .cpuU64) f, executions⟩

variable {layout : PvpLayoutAdapterV1} {executions k c : ℕ} {f : ℕ → BitVec 64}

private theorem run_xorWord {sourceBase targetBase word : ℕ}
    (hsource : sourceBase + word < layout.addresses * layout.rowWords .cpuU64)
    (htarget : targetBase + word < layout.addresses * layout.rowWords .cpuU64) :
    (xorWord sourceBase targetBase word).run (holding layout executions f) =
      (.ok ⟨⟩, holding layout executions (Function.update f (targetBase + word)
        (f (targetBase + word) ^^^ f (sourceBase + word)))) := by
  simp only [xorWord, holding, Fallible.run_bind, Fallible.run_get, Fallible.run_ofExcept,
    Outcome.index_tabulate hsource, Outcome.modifyAt_tabulate htarget, Fallible.run_modify]

private theorem run_xorAddress {offset : ℕ} (hoffset : offset < 2 ^ k)
    (hblock : 2 ^ (k + 1) * (c + 1) ≤ layout.addresses) :
    (xorAddress (layout.rowWords .cpuU64) (2 ^ k) (2 ^ (k + 1) * c) offset).run
        (holding layout executions (stagedBelow (layout.rowWords .cpuU64) k f
          ((2 ^ (k + 1) * c + offset + 2 ^ k) * layout.rowWords .cpuU64))) =
      (.ok ⟨⟩, holding layout executions (stagedBelow (layout.rowWords .cpuU64) k f
        ((2 ^ (k + 1) * c + (offset + 1) + 2 ^ k) * layout.rowWords .cpuU64))) := by
  have hhigh : 2 ^ (k + 1) * c + offset + 2 ^ k < layout.addresses := by
    rw [Nat.mul_add_one] at hblock
    rw [Nat.pow_succ] at hblock ⊢
    omega
  have hlow : 2 ^ (k + 1) * c + offset < layout.addresses := by omega
  rw [xorAddress, PvpLayoutAdapterV1.checkedMul_rowWords hlow,
    PvpLayoutAdapterV1.checkedMul_rowWords hhigh]
  have hloop := Fallible.run_forRange
    (fun word => holding layout executions (stagedBelow (layout.rowWords .cpuU64) k f
      ((2 ^ (k + 1) * c + offset + 2 ^ k) * layout.rowWords .cpuU64 + word)))
    (fun word hword => by
      rw [run_xorWord (PvpLayoutAdapterV1.index_lt hlow hword)
        (PvpLayoutAdapterV1.index_lt hhigh hword), update_stagedBelow hword
          (testBit_block hoffset c) (testBit_block_add hoffset c)]
      rfl)
  refine hloop.trans ?_
  rw [← Nat.add_one_mul, Nat.add_right_comm _ (2 ^ k) 1, ← Nat.add_assoc]

private theorem run_blockRound (hblock : 2 ^ (k + 1) * (c + 1) ≤ layout.addresses) :
    (blockRound (layout.rowWords .cpuU64) layout.addresses (2 ^ k) (2 ^ k * 2)
        (2 ^ (k + 1) * c)).run
        (holding layout executions (stagedBelow (layout.rowWords .cpuU64) k f
          ((2 ^ (k + 1) * c + 2 ^ k) * layout.rowWords .cpuU64))) =
      (.ok (.inl (2 ^ (k + 1) * (c + 1))),
        holding layout executions (stagedBelow (layout.rowWords .cpuU64) k f
          ((2 ^ (k + 1) * (c + 1) + 2 ^ k) * layout.rowWords .cpuU64))) := by
  have hpow : 2 ^ k * 2 = 2 ^ (k + 1) := (Nat.pow_succ ..).symm
  have hpos : 0 < 2 ^ k := Nat.two_pow_pos k
  have hlt : 2 ^ (k + 1) * c < layout.addresses := by
    rw [Nat.mul_add_one] at hblock
    omega
  have hadd : checkedAdd (2 ^ (k + 1) * c) (2 ^ k * 2) = some (2 ^ (k + 1) * (c + 1)) := by
    rw [checkedAdd_eq_some_iff, hpow, Nat.mul_add_one]
    rw [Nat.mul_add_one] at hblock
    exact ⟨rfl, Nat.lt_of_le_of_lt hblock layout.addresses_lt⟩
  have hoffsets : (Fallible.forRange (2 ^ k)
      (xorAddress (layout.rowWords .cpuU64) (2 ^ k) (2 ^ (k + 1) * c))).run
        (holding layout executions (stagedBelow (layout.rowWords .cpuU64) k f
          ((2 ^ (k + 1) * c + 2 ^ k) * layout.rowWords .cpuU64))) =
      (.ok ⟨⟩, holding layout executions (stagedBelow (layout.rowWords .cpuU64) k f
        ((2 ^ (k + 1) * c + 2 ^ k + 2 ^ k) * layout.rowWords .cpuU64))) :=
    Fallible.run_forRange
      (fun offset => holding layout executions (stagedBelow (layout.rowWords .cpuU64) k f
        ((2 ^ (k + 1) * c + offset + 2 ^ k) * layout.rowWords .cpuU64)))
      (fun offset hoffset => run_xorAddress hoffset hblock)
  -- No address between the last upper address of a block and the first of the next has the digit.
  have hnext : stagedBelow (layout.rowWords .cpuU64) k f
      ((2 ^ (k + 1) * c + 2 ^ k + 2 ^ k) * layout.rowWords .cpuU64) =
        stagedBelow (layout.rowWords .cpuU64) k f
          ((2 ^ (k + 1) * (c + 1) + 2 ^ k) * layout.rowWords .cpuU64) := by
    have hstart : 2 ^ (k + 1) * c + 2 ^ k + 2 ^ k = 2 ^ (k + 1) * (c + 1) := by
      rw [Nat.mul_add_one]
      omega
    rw [hstart]
    refine stagedBelow_congr (Nat.mul_le_mul_right _ (by omega)) fun i hle hlt => ?_
    have hge : 2 ^ (k + 1) * (c + 1) ≤ i / layout.rowWords .cpuU64 :=
      (Nat.le_div_iff_mul_le layout.rowWords_pos).2 hle
    have hlt' : i / layout.rowWords .cpuU64 < 2 ^ (k + 1) * (c + 1) + 2 ^ k :=
      Nat.div_lt_of_lt_mul (by rwa [Nat.mul_comm])
    obtain ⟨offset, hoffset⟩ := Nat.exists_eq_add_of_le hge
    rw [hoffset]
    exact testBit_block (by omega) (c + 1)
  rw [blockRound, if_pos hlt, Fallible.run_bind_ok hoffsets, hadd, hnext]
  rfl

/-- A round of the loop over the stages is a stage. -/
private theorem run_strideRound (hk : k < layout.stages) :
    (strideRound (layout.rowWords .cpuU64) layout.addresses (2 ^ k)).run
        (holding layout executions f) =
      (.ok (.inl (2 ^ (k + 1))),
        holding layout executions (wordStage (layout.rowWords .cpuU64) k f)) := by
  have hpow : 2 ^ k * 2 = 2 ^ (k + 1) := (Nat.pow_succ ..).symm
  have haddresses : layout.addresses = 2 ^ (k + 1) * 2 ^ (layout.stages - (k + 1)) := by
    rw [← Nat.pow_add, layout.addresses_eq]
    exact congrArg _ (by omega)
  have hle : 2 ^ (k + 1) ≤ layout.addresses := by
    rw [haddresses]
    exact Nat.le_mul_of_pos_right _ (Nat.two_pow_pos _)
  have hpos : 0 < 2 ^ k := Nat.two_pow_pos k
  have hmul : checkedMul (2 ^ k) 2 = some (2 ^ k * 2) :=
    checkedMul_of_lt (by rw [hpow]; exact Nat.lt_of_le_of_lt hle layout.addresses_lt)
  have hstart : holding layout executions f = holding layout executions
      (stagedBelow (layout.rowWords .cpuU64) k f (2 ^ k * layout.rowWords .cpuU64)) := by
    refine congrArg _ (Eq.trans (funext fun i => (if_neg (Nat.not_lt_zero i)).symm)
      (stagedBelow_congr (Nat.zero_le _) fun i _ hlt => ?_))
    exact Nat.testBit_lt_two_pow (Nat.div_lt_of_lt_mul (by rwa [Nat.mul_comm]))
  have hfinish : holding layout executions (stagedBelow (layout.rowWords .cpuU64) k f
      ((2 ^ (k + 1) * 2 ^ (layout.stages - (k + 1)) + 2 ^ k) * layout.rowWords .cpuU64)) =
        holding layout executions (wordStage (layout.rowWords .cpuU64) k f) := by
    rw [← haddresses]
    refine congrArg (CpuPvpSessionV1.mk layout · executions) (tabulate_congr fun i hi => if_pos ?_)
    exact Nat.lt_of_lt_of_le hi (Nat.mul_le_mul_right _ (Nat.le_add_right ..))
  have hblocks : (Fallible.loop .panic (layout.addresses + 1) 0
      (blockRound (layout.rowWords .cpuU64) layout.addresses (2 ^ k) (2 ^ k * 2))).run
        (holding layout executions f) =
      (.ok ⟨⟩, holding layout executions (wordStage (layout.rowWords .cpuU64) k f)) := by
    have hlast : (blockRound (layout.rowWords .cpuU64) layout.addresses (2 ^ k) (2 ^ k * 2)
        (2 ^ (k + 1) * 2 ^ (layout.stages - (k + 1)))).run
          (holding layout executions (stagedBelow (layout.rowWords .cpuU64) k f
            ((2 ^ (k + 1) * 2 ^ (layout.stages - (k + 1)) + 2 ^ k) * layout.rowWords .cpuU64))) =
        (.ok (.inr ⟨⟩), holding layout executions (wordStage (layout.rowWords .cpuU64) k f)) := by
      rw [blockRound, if_neg (by omega), hfinish]
      rfl
    have hfuel : 2 ^ (layout.stages - (k + 1)) < layout.addresses + 1 := by
      rw [Nat.lt_succ_iff, haddresses]
      exact Nat.le_mul_of_pos_left _ (Nat.two_pow_pos _)
    have hloop := Fallible.run_loop (2 ^ (layout.stages - (k + 1))) .panic
      (fun c => holding layout executions (stagedBelow (layout.rowWords .cpuU64) k f
        ((2 ^ (k + 1) * c + 2 ^ k) * layout.rowWords .cpuU64)))
      (fun c => 2 ^ (k + 1) * c)
      (fun c hc => run_blockRound (haddresses ▸ Nat.mul_le_mul_left _ hc)) hlast
      hfuel
    simp only [Nat.mul_zero, Nat.zero_add] at hloop
    rw [hstart]
    exact hloop
  rw [strideRound, if_pos (by omega), hmul]
  change ((Fallible.loop .panic (layout.addresses + 1) 0
    (blockRound (layout.rowWords .cpuU64) layout.addresses (2 ^ k) (2 ^ k * 2))) >>=
      fun _ => (pure (.inl (2 ^ k * 2)) : CpuPvpM (ℕ ⊕ PUnit))).run _ = _
  rw [Fallible.run_bind_ok hblocks, hpow]
  rfl

/-- The session of a bank after a number of executions. -/
def ofBank (bank : PvpCpuU64V1) (executions : ℕ) : CpuPvpSessionV1 :=
  ⟨bank.layout, bank.words, executions⟩

theorem snapshot_ofBank (bank : PvpCpuU64V1) : (ofBank bank executions).snapshot = .ok bank :=
  PvpBank.new_eq_ok bank.valid bank.fits

private theorem run_stages (bank : PvpCpuU64V1) :
    (Fallible.loop .panic 65 1
        (strideRound (bank.layout.rowWords .cpuU64) bank.layout.addresses)).run
        (ofBank bank executions) = (.ok ⟨⟩, ofBank bank.zeta executions) := by
  have hstart : ofBank bank executions =
      holding bank.layout executions (bank.words.getD · 0) := by
    rw [holding, ← bank.length_words, tabulate_getD]
    rfl
  have hstages : bank.layout.stages < 65 := by
    have hlt := bank.layout.addresses_lt
    rw [bank.layout.addresses_eq] at hlt
    have hexponent : bank.layout.stages < 64 := (Nat.pow_lt_pow_iff_right (by decide)).1 hlt
    omega
  have hlast : (strideRound (bank.layout.rowWords .cpuU64) bank.layout.addresses
      (2 ^ bank.layout.stages)).run (ofBank bank.zeta executions) =
        (.ok (.inr ⟨⟩), ofBank bank.zeta executions) := by
    rw [strideRound, if_neg (by rw [← bank.layout.addresses_eq]; exact Nat.lt_irrefl _)]
    rfl
  have hloop := Fallible.run_loop bank.layout.stages .panic
    (fun k => holding bank.layout executions
      (wordTransform (bank.layout.rowWords .cpuU64) k (bank.words.getD · 0)))
    (fun k => 2 ^ k) (fun k hk => run_strideRound hk) hlast hstages
  simp only [Nat.pow_zero, wordTransform] at hloop
  rw [hstart, hloop]

/-- An execution ends in the transform of the bank, unless the executions can no longer be
counted. -/
theorem run_executeSubsetZeta (bank : PvpCpuU64V1) (hcount : executions + 1 < wordLimit) :
    executeSubsetZeta.run (ofBank bank executions) =
      (.ok
        { stages := bank.layout.stages
          logicalGateXorOps := bank.layout.addresses / 2 * bank.layout.stages * bank.layout.gates
          packedU64Updates :=
            bank.layout.addresses / 2 * bank.layout.stages * bank.layout.rowWords .cpuU64
          stateWords := bank.layout.addresses * bank.layout.rowWords .cpuU64
          stateBytes := bank.layout.addresses * bank.layout.rowWords .cpuU64 * 8
          scratchWords := 0
          executionIndex := executions + 1 }, ofBank bank.zeta (executions + 1)) := by
  have hwords := PvpLayoutAdapterV1.wordsPerAddress_of_lt bank.gates_fit
  have hstorage := PvpLayoutAdapterV1.storageWords_of_lt bank.gates_fit
  have hbytes : bank.layout.storageBytes .cpuU64 =
      .ok (bank.layout.addresses * bank.layout.rowWords .cpuU64 * 8) := by
    have hfits : bank.words.length * (64 / 8) ≤ isizeMax := bank.fits
    rw [bank.length_words] at hfits
    rw [PvpLayoutAdapterV1.storageBytes, hstorage, Except.ok_bind, Outcome.okOr_eq_ok_iff]
    exact checkedMul_of_lt (Nat.lt_of_le_of_lt hfits (by decide))
  rw [executeSubsetZeta, Fallible.run_bind_ok (Fallible.run_get _)]
  have hlayout : (ofBank bank executions).layout = bank.layout := rfl
  simp only [hlayout, hwords, hstorage, hbytes, Fallible.ofExcept_ok_bind]
  rw [Fallible.run_bind_ok (run_stages bank), Fallible.run_bind_ok (Fallible.run_get _),
    snapshot_ofBank, Fallible.ofExcept_ok_bind, Fallible.run_bind_ok (Fallible.run_get _)]
  have hadd : checkedAdd (ofBank bank.zeta executions).executions 1 = some (executions + 1) :=
    checkedAdd_of_lt hcount
  rw [hadd]
  rfl

end CpuPvpSessionV1

/-- From a new session of a bank an execution returns, so that no offset was out of range, and
leaves a bank that is valid, has the layout of the first and at each address and gate the exclusive
or of the bits at the subsets of the address. A second execution returns to the bank. -/
theorem cpuPvp_executeSubsetZeta_correct (bank : PvpCpuU64V1) :
    ∃ stats session result,
      CpuPvpSessionV1.executeSubsetZeta.run (.new bank) = (.ok stats, session) ∧
      session.snapshot = .ok result ∧ result.layout = bank.layout ∧
      (∀ address < bank.layout.addresses, ∀ gate < bank.layout.gates,
        result.bit address gate =
          (SubsetZeta.submasks address).fold xor false fun s => bank.bit s gate) ∧
      ∃ stats' session',
        CpuPvpSessionV1.executeSubsetZeta.run session = (.ok stats', session') ∧
        session'.snapshot = .ok bank := by
  have hfirst := CpuPvpSessionV1.run_executeSubsetZeta bank (by decide : 0 + 1 < wordLimit)
  have hsecond := CpuPvpSessionV1.run_executeSubsetZeta bank.zeta (by decide : 1 + 1 < wordLimit)
  refine ⟨_, _, bank.zeta, hfirst, CpuPvpSessionV1.snapshot_ofBank _, rfl,
    fun address ha gate hgate => bank.bit_zeta_eq_fold ha hgate, _, _, hsecond, ?_⟩
  rw [CpuPvpSessionV1.snapshot_ofBank, bank.zeta_zeta]

end NNIS
