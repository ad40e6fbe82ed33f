import NNIS.Core.Pvp

/-!
# The projections of a bank

A bank is valid when it has as many words as its layout asks for and the positions behind the last
gate of each address are zero, so a bank is determined by its layout and its bits. The projections
between 64-bit and 32-bit words keep the bits. That to 32-bit words never fails; that to 64-bit
words fails when the rounding of the gates leaves 64 bits, and panics when the 64-bit words need
more bytes than a vector can have.

## Main results

* `validatePvp_eq_ok_iff` — valid words.
* `PvpBank.ext_bit` — a bank is determined by its bits.
* `PvpBank.toWgpuU32_spec`, `PvpBank.toCpuU64_spec` — the projections keep the bits.
* `pvpProjection_inverse` — when they return and that they undo each other.
-/

set_option autoImplicit false

namespace NNIS

/-! ### Sizes -/

namespace PvpLayoutAdapterV1

variable (layout : PvpLayoutAdapterV1) {physical : PvpPhysicalWordV1}

theorem rowWords_pos : 0 < layout.rowWords physical := by
  have hgates := layout.gates_ne
  cases physical <;> simp only [rowWords, PvpPhysicalWordV1.bits] <;> omega

theorem rowWords_le_gates : layout.rowWords physical ≤ layout.gates := by
  have hgates := layout.gates_ne
  cases physical <;> simp only [rowWords, PvpPhysicalWordV1.bits] <;> omega

theorem storage_lt : layout.addresses * layout.rowWords physical < wordLimit :=
  Nat.lt_of_le_of_lt (Nat.mul_le_mul_left _ layout.rowWords_le_gates) layout.fits

theorem wordsPerAddress_eq_ok_iff {n : ℕ} : layout.wordsPerAddress physical = .ok n ↔
    layout.gates + (physical.bits - 1) < wordLimit ∧ layout.rowWords physical = n := by
  rw [wordsPerAddress, checkedCeilDiv, Outcome.okOr_eq_ok_iff, Option.map_eq_some_iff]
  simp only [checkedAdd_eq_some_iff]
  constructor
  · rintro ⟨_, ⟨rfl, hlt⟩, rfl⟩
    exact ⟨hlt, rfl⟩
  · rintro ⟨hlt, rfl⟩
    exact ⟨_, ⟨rfl, hlt⟩, rfl⟩

theorem storageWords_eq_ok_iff {n : ℕ} : layout.storageWords physical = .ok n ↔
    layout.gates + (physical.bits - 1) < wordLimit ∧
      layout.addresses * layout.rowWords physical = n := by
  simp only [storageWords, Except.bind_eq_ok_iff, wordsPerAddress_eq_ok_iff,
    Outcome.okOr_eq_ok_iff, checkedMul_eq_some_iff]
  constructor
  · rintro ⟨_, ⟨hlt, rfl⟩, rfl, -⟩
    exact ⟨hlt, rfl⟩
  · rintro ⟨hlt, rfl⟩
    exact ⟨_, ⟨hlt, rfl⟩, rfl, layout.storage_lt⟩

variable {layout}

theorem wordsPerAddress_of_lt (h : layout.gates + (physical.bits - 1) < wordLimit) :
    layout.wordsPerAddress physical = .ok (layout.rowWords physical) :=
  layout.wordsPerAddress_eq_ok_iff.2 ⟨h, rfl⟩

theorem storageWords_of_lt (h : layout.gates + (physical.bits - 1) < wordLimit) :
    layout.storageWords physical = .ok (layout.addresses * layout.rowWords physical) :=
  layout.storageWords_eq_ok_iff.2 ⟨h, rfl⟩

/-- The offset of an address is a word. -/
theorem checkedMul_rowWords {address : ℕ} (h : address < layout.addresses) :
    checkedMul address (layout.rowWords physical) = some (address * layout.rowWords physical) :=
  checkedMul_of_lt (Nat.lt_of_le_of_lt (Nat.mul_le_mul_right _ (Nat.le_of_lt h)) layout.storage_lt)

theorem index_lt {address word : ℕ} (ha : address < layout.addresses)
    (hw : word < layout.rowWords physical) :
    address * layout.rowWords physical + word < layout.addresses * layout.rowWords physical := by
  calc address * layout.rowWords physical + word
      < (address + 1) * layout.rowWords physical := by rw [Nat.add_one_mul]; omega
    _ ≤ layout.addresses * layout.rowWords physical := Nat.mul_le_mul_right _ ha

/-- The position of a gate is in the words of its address. -/
theorem gate_div_lt (physical : PvpPhysicalWordV1) {gate : ℕ} (h : gate < layout.gates) :
    gate / physical.bits < layout.rowWords physical := by
  cases physical <;> simp only [rowWords, PvpPhysicalWordV1.bits] <;> omega

end PvpLayoutAdapterV1

/-! ### Valid words -/

section

variable {physical : PvpPhysicalWordV1} {layout : PvpLayoutAdapterV1}

/-- The mask of the padding has the bits from the tail on. -/
private theorem getLsbD_mask {width tail i : ℕ} (htail : tail < width) (hi : i < width) :
    (~~~((BitVec.ofNat width 1 <<< tail) - BitVec.ofNat width 1)).getLsbD i =
      decide (tail ≤ i) := by
  have hpow : 2 ^ tail < 2 ^ width := Nat.pow_lt_pow_right (by decide) htail
  have hnat : ((BitVec.ofNat width 1 <<< tail) - BitVec.ofNat width 1).toNat = 2 ^ tail - 1 := by
    have hone : (BitVec.ofNat width 1).toNat = 1 := by
      rw [BitVec.toNat_ofNat, Nat.mod_eq_of_lt (Nat.one_lt_two_pow (by omega))]
    have hshift : (BitVec.ofNat width 1 <<< tail).toNat = 2 ^ tail := by
      rw [BitVec.toNat_shiftLeft, hone, Nat.shiftLeft_eq, Nat.one_mul, Nat.mod_eq_of_lt hpow]
    have hle : BitVec.ofNat width 1 ≤ BitVec.ofNat width 1 <<< tail := by
      rw [BitVec.le_def, hone, hshift]
      exact Nat.one_le_two_pow
    rw [BitVec.toNat_sub_of_le hle, hone, hshift]
  rw [BitVec.getLsbD_not, decide_eq_true hi, Bool.true_and, ← BitVec.testBit_toNat, hnat,
    Nat.testBit_two_pow_sub_one]
  by_cases h : i < tail
  · rw [decide_eq_true h, decide_eq_false (by omega)]
    rfl
  · rw [decide_eq_false h, decide_eq_true (by omega)]
    rfl

private theorem getLsbD_zero {width : ℕ} (i : ℕ) : (0 : BitVec width).getLsbD i = false :=
  BitVec.getLsbD_zero

private theorem and_mask_eq_zero_iff {width tail : ℕ} (htail : tail < width) (word : BitVec width) :
    word &&& ~~~((BitVec.ofNat width 1 <<< tail) - BitVec.ofNat width 1) = 0 ↔
      ∀ i, tail ≤ i → i < width → word.getLsbD i = false := by
  constructor
  · intro h i hi hlt
    have hbit := congrArg (·.getLsbD i) h
    simpa only [BitVec.getLsbD_and, getLsbD_mask htail hlt, hi, decide_true, Bool.and_true,
      getLsbD_zero] using hbit
  · intro h
    refine BitVec.eq_of_getLsbD_eq fun i hi => ?_
    rw [BitVec.getLsbD_and, getLsbD_mask htail hi, getLsbD_zero]
    by_cases hle : tail ≤ i
    · rw [h i hle hi, Bool.false_and]
    · rw [decide_eq_false hle, Bool.and_false]

/-- The positions behind the last gate of the words of an address. -/
private theorem padding_iff {gate : ℕ} (htail : layout.gates % physical.bits ≠ 0) :
    (layout.gates ≤ gate ∧ gate < layout.rowWords physical * physical.bits) ↔
      gate / physical.bits = layout.rowWords physical - 1 ∧
        layout.gates % physical.bits ≤ gate % physical.bits := by
  have hgates := layout.gates_ne
  cases physical <;> simp only [PvpLayoutAdapterV1.rowWords, PvpPhysicalWordV1.bits] at * <;> omega

/-- Words are valid when there are as many as the layout asks for and the padding is zero. -/
theorem validatePvp_eq_ok_iff {words : List (BitVec physical.bits)} {u : PUnit} :
    validatePvp physical layout words = .ok u ↔
      layout.gates + (physical.bits - 1) < wordLimit ∧
        words.length = layout.addresses * layout.rowWords physical ∧
          ∀ address < layout.addresses, ∀ gate, layout.gates ≤ gate →
            gate < layout.rowWords physical * physical.bits →
              (words.getD (address * layout.rowWords physical + gate / physical.bits) 0).getLsbD
                (gate % physical.bits) = false := by
  have hbits : 0 < physical.bits := by cases physical <;> decide
  rw [validatePvp, Except.bind_eq_ok_iff]
  simp only [PvpLayoutAdapterV1.storageWords_eq_ok_iff]
  constructor
  · rintro ⟨_, ⟨hlt, rfl⟩, h⟩
    rw [Except.bind_eq_ok_iff] at h
    obtain ⟨_, hlen, h⟩ := h
    rw [Outcome.require_eq_ok_iff] at hlen
    refine ⟨hlt, hlen, fun address ha gate hle hgate => ?_⟩
    split_ifs at h with htail
    · exfalso
      have hdiv : layout.rowWords physical * physical.bits ≤ layout.gates := by
        cases physical <;> simp only [PvpLayoutAdapterV1.rowWords, PvpPhysicalWordV1.bits] at * <;>
          omega
      omega
    · rw [PvpLayoutAdapterV1.wordsPerAddress_of_lt hlt, Except.ok_bind, Outcome.forM_eq_ok_iff] at h
      have hrow := h address (List.mem_range.2 ha)
      rw [Except.bind_eq_ok_iff] at hrow
      obtain ⟨word, hword, hmask⟩ := hrow
      rw [Outcome.index_eq_ok_iff] at hword
      rw [Outcome.require_eq_ok_iff, and_mask_eq_zero_iff (Nat.mod_lt _ hbits)] at hmask
      obtain ⟨hdiv, hmod⟩ := (padding_iff htail).1 ⟨hle, hgate⟩
      rw [hdiv, List.getD_eq_getElem?_getD, hword]
      exact hmask _ hmod (Nat.mod_lt _ hbits)
  · rintro ⟨hlt, hlen, hpadding⟩
    refine ⟨_, ⟨hlt, rfl⟩, ?_⟩
    rw [Outcome.require_of _ hlen, Except.ok_bind]
    split_ifs with htail
    · rfl
    · rw [PvpLayoutAdapterV1.wordsPerAddress_of_lt hlt, Except.ok_bind, Outcome.forM_eq_ok_iff]
      intro address ha
      have hlast : layout.rowWords physical - 1 < layout.rowWords physical :=
        Nat.sub_lt layout.rowWords_pos Nat.one_pos
      have hindex := PvpLayoutAdapterV1.index_lt (List.mem_range.1 ha) hlast
      rw [Outcome.index_of_lt (by rwa [hlen]), Except.ok_bind, Outcome.require_eq_ok_iff,
        and_mask_eq_zero_iff (Nat.mod_lt _ hbits)]
      intro i hi hlt'
      have hdiv : ((layout.rowWords physical - 1) * physical.bits + i) / physical.bits =
          layout.rowWords physical - 1 := by
        rw [Nat.mul_comm, Nat.mul_add_div hbits, Nat.div_eq_of_lt hlt', Nat.add_zero]
      have hmod : ((layout.rowWords physical - 1) * physical.bits + i) % physical.bits = i := by
        rw [Nat.mul_comm, Nat.mul_add_mod, Nat.mod_eq_of_lt hlt']
      obtain ⟨hle, hgate⟩ := (padding_iff htail).2 ⟨hdiv, hmod.symm ▸ hi⟩
      have hbit := hpadding address (List.mem_range.1 ha) _ hle hgate
      rwa [hdiv, hmod, List.getD_eq_getElem?_getD, List.getElem?_eq_getElem (by rwa [hlen]),
        Option.getD_some] at hbit

end

namespace PvpBank

variable {physical : PvpPhysicalWordV1}

section

variable (bank : PvpBank physical)

theorem gates_fit : bank.layout.gates + (physical.bits - 1) < wordLimit :=
  (validatePvp_eq_ok_iff.1 bank.valid).1

theorem length_words :
    bank.words.length = bank.layout.addresses * bank.layout.rowWords physical :=
  (validatePvp_eq_ok_iff.1 bank.valid).2.1

theorem bit_padding {address gate : ℕ} (ha : address < bank.layout.addresses)
    (hle : bank.layout.gates ≤ gate) (hlt : gate < bank.layout.rowWords physical * physical.bits) :
    bank.bit address gate = false :=
  (validatePvp_eq_ok_iff.1 bank.valid).2.2 address ha gate hle hlt

end

theorem new_eq_ok {layout : PvpLayoutAdapterV1} {words : List (BitVec physical.bits)}
    (hvalid : validatePvp physical layout words = .ok ⟨⟩)
    (hfits : words.length * (physical.bits / 8) ≤ isizeMax) :
    PvpBank.new layout words = .ok ⟨layout, words, hvalid, hfits⟩ := by
  rw [PvpBank.new, dif_pos hfits]
  split
  · rfl
  · rename_i h
    rw [hvalid] at h
    exact nomatch h

theorem new_eq_ok_iff {layout : PvpLayoutAdapterV1} {words : List (BitVec physical.bits)}
    {bank : PvpBank physical} :
    PvpBank.new layout words = .ok bank ↔ bank.layout = layout ∧ bank.words = words := by
  constructor
  · intro h
    rw [PvpBank.new] at h
    split_ifs at h with hfits
    split at h
    · rw [← Except.ok.inj h]
      exact ⟨rfl, rfl⟩
    · exact nomatch h
  · rintro ⟨rfl, rfl⟩
    exact new_eq_ok bank.valid bank.fits

/-- A bank is determined by its layout and the bits of its gates. -/
theorem ext_bit {bank bank' : PvpBank physical} (hlayout : bank.layout = bank'.layout)
    (h : ∀ address < bank.layout.addresses, ∀ gate < bank.layout.gates,
      bank.bit address gate = bank'.bit address gate) : bank = bank' := by
  have hbits : 0 < physical.bits := by cases physical <;> decide
  have hpos : 0 < bank.layout.rowWords physical := bank.layout.rowWords_pos
  have hwords : bank.words = bank'.words := by
    rw [← tabulate_getD bank.words 0, ← tabulate_getD bank'.words 0, bank.length_words,
      bank'.length_words, hlayout]
    refine tabulate_congr fun i hi => BitVec.eq_of_getLsbD_eq fun j hj => ?_
    rw [← hlayout] at hi
    -- The bit `j` of the word `i` is the bit of an address and a position.
    obtain ⟨address, word, ha, hw, rfl⟩ : ∃ address word, address < bank.layout.addresses ∧
        word < bank.layout.rowWords physical ∧
        i = address * bank.layout.rowWords physical + word :=
      ⟨i / bank.layout.rowWords physical, i % bank.layout.rowWords physical,
        Nat.div_lt_of_lt_mul (by rwa [Nat.mul_comm]), Nat.mod_lt _ hpos,
        by rw [Nat.mul_comm, Nat.div_add_mod]⟩
    have hdiv : (word * physical.bits + j) / physical.bits = word := by
      rw [Nat.mul_comm, Nat.mul_add_div hbits, Nat.div_eq_of_lt hj, Nat.add_zero]
    have hmod : (word * physical.bits + j) % physical.bits = j := by
      rw [Nat.mul_comm, Nat.mul_add_mod, Nat.mod_eq_of_lt hj]
    have hbit : bank.bit address (word * physical.bits + j) =
        bank'.bit address (word * physical.bits + j) := by
      by_cases hgate : word * physical.bits + j < bank.layout.gates
      · exact h address ha _ hgate
      · have hlt : word * physical.bits + j < bank.layout.rowWords physical * physical.bits := by
          calc word * physical.bits + j < (word + 1) * physical.bits := by
                rw [Nat.add_one_mul]
                omega
            _ ≤ bank.layout.rowWords physical * physical.bits := Nat.mul_le_mul_right _ hw
        rw [bank.bit_padding ha (by omega) hlt, bank'.bit_padding (by rwa [← hlayout])
          (by rw [← hlayout]; omega) (by rwa [← hlayout])]
    rw [bit, bit, hdiv, hmod, ← hlayout] at hbit
    exact hbit
  obtain ⟨layout, words, _, _⟩ := bank
  obtain ⟨layout', words', _, _⟩ := bank'
  obtain rfl : layout = layout' := hlayout
  obtain rfl : words = words' := hwords
  rfl

end PvpBank

/-! ### To 32-bit words -/

namespace PvpLayoutAdapterV1

variable (layout : PvpLayoutAdapterV1)

/-- The last half of the last 64-bit word may have no 32-bit word. -/
theorem rowWords_wgpu_le : layout.rowWords .wgpuU32 ≤ 2 * layout.rowWords .cpuU64 := by
  simp only [rowWords, PvpPhysicalWordV1.bits]
  omega

theorem rowWords_cpu_le : 2 * layout.rowWords .cpuU64 ≤ layout.rowWords .wgpuU32 + 1 := by
  simp only [rowWords, PvpPhysicalWordV1.bits]
  omega

end PvpLayoutAdapterV1

namespace PvpBank

/-- The 32-bit word at a place of an address. -/
def wordU32 (bank : PvpCpuU64V1) (address word : ℕ) : BitVec 32 :=
  (bank.words.getD (address * bank.layout.rowWords .cpuU64 + word / 2) 0 >>>
    (word % 2 * 32)).setWidth 32

private theorem getLsbD_wordU32 (bank : PvpCpuU64V1) (address gate : ℕ) :
    (bank.wordU32 address (gate / 32)).getLsbD (gate % 32) = bank.bit address gate := by
  have hword : gate / 32 / 2 = gate / 64 := by omega
  have hbit : gate / 32 % 2 * 32 + gate % 32 = gate % 64 := by omega
  rw [wordU32, BitVec.getLsbD_setWidth, decide_eq_true (Nat.mod_lt _ (by decide)), Bool.true_and,
    BitVec.getLsbD_ushiftRight, hword, hbit]
  rfl

private theorem projectWord_eq (bank : PvpCpuU64V1) {address word : ℕ}
    (ha : address < bank.layout.addresses) (hw : word < bank.layout.rowWords .wgpuU32)
    (f : ℕ → BitVec 32) :
    projectWord bank.words (address * bank.layout.rowWords .cpuU64)
        (address * bank.layout.rowWords .wgpuU32)
        (tabulate (bank.layout.addresses * bank.layout.rowWords .wgpuU32) f) word =
      .ok (tabulate (bank.layout.addresses * bank.layout.rowWords .wgpuU32)
        (Function.update f (address * bank.layout.rowWords .wgpuU32 + word)
          (bank.wordU32 address word))) := by
  have hle := bank.layout.rowWords_wgpu_le
  have hsource : address * bank.layout.rowWords .cpuU64 + word / 2 < bank.words.length := by
    rw [bank.length_words]
    exact PvpLayoutAdapterV1.index_lt ha (by omega)
  rw [projectWord, Outcome.index_of_lt hsource, Except.ok_bind,
    Outcome.modifyAt_tabulate (PvpLayoutAdapterV1.index_lt ha hw), wordU32,
    List.getD_eq_getElem?_getD, List.getElem?_eq_getElem hsource, Option.getD_some]

/-- The 32-bit words of a bank. -/
def wordsU32 (bank : PvpCpuU64V1) : List (BitVec 32) :=
  tabulate (bank.layout.addresses * bank.layout.rowWords .wgpuU32) fun i =>
    bank.wordU32 (i / bank.layout.rowWords .wgpuU32) (i % bank.layout.rowWords .wgpuU32)

private theorem projectAddresses_eq (bank : PvpCpuU64V1) :
    (List.range bank.layout.addresses).foldlM
        (projectAddress bank.words (bank.layout.rowWords .cpuU64) (bank.layout.rowWords .wgpuU32))
        (List.replicate (bank.layout.addresses * bank.layout.rowWords .wgpuU32) 0) =
      .ok bank.wordsU32 := by
  rw [replicate_eq_tabulate, wordsU32]
  refine (Outcome.foldlM_rows (bank.layout.rowWords .wgpuU32)
    (fun address n word => if word < n then bank.wordU32 address word else 0)
    (fun address => projectWord bank.words (address * bank.layout.rowWords .cpuU64)
      (address * bank.layout.rowWords .wgpuU32)) ?_ ?_ ?_).trans ?_
  · intro address ha l
    rw [projectAddress, PvpLayoutAdapterV1.checkedMul_rowWords ha,
      PvpLayoutAdapterV1.checkedMul_rowWords ha]
    rfl
  · intro address ha n hn f hf
    refine ⟨_, projectWord_eq bank ha hn f, fun word hw => ?_, fun i hi => ?_⟩
    · rcases eq_or_ne word n with rfl | hne
      · rw [Function.update_self, if_pos (Nat.lt_succ_self word)]
      · rw [Function.update_of_ne (by omega), hf word hw]
        exact if_congr (by omega) rfl rfl
    · refine Function.update_of_ne (fun h => hi ?_) _ _
      rw [h, Nat.mul_comm, Nat.mul_add_div (by omega), Nat.div_eq_of_lt hn, Nat.add_zero]
  · exact fun address _ word _ => (if_neg (Nat.not_lt_zero word)).symm
  · refine congrArg _ (tabulate_congr fun i _ => if_pos (Nat.mod_lt i ?_))
    exact bank.layout.rowWords_pos

theorem getLsbD_wordsU32 (bank : PvpCpuU64V1) {address gate : ℕ}
    (ha : address < bank.layout.addresses) (hgate : gate / 32 < bank.layout.rowWords .wgpuU32) :
    (bank.wordsU32.getD (address * bank.layout.rowWords .wgpuU32 + gate / 32) 0).getLsbD
      (gate % 32) = bank.bit address gate := by
  have hdiv : (address * bank.layout.rowWords .wgpuU32 + gate / 32) /
      bank.layout.rowWords .wgpuU32 = address := by
    rw [Nat.mul_comm, Nat.mul_add_div (by omega), Nat.div_eq_of_lt hgate, Nat.add_zero]
  have hmod : (address * bank.layout.rowWords .wgpuU32 + gate / 32) %
      bank.layout.rowWords .wgpuU32 = gate / 32 := by
    rw [Nat.mul_comm, Nat.mul_add_mod, Nat.mod_eq_of_lt hgate]
  rw [wordsU32, getD_tabulate (PvpLayoutAdapterV1.index_lt ha hgate), hdiv, hmod, getLsbD_wordU32]

private theorem wgpu_gates_fit (bank : PvpCpuU64V1) :
    bank.layout.gates + (PvpPhysicalWordV1.bits .wgpuU32 - 1) < wordLimit :=
  Nat.lt_of_le_of_lt (Nat.add_le_add_left (by decide) _) bank.gates_fit

private theorem wordsU32_fits (bank : PvpCpuU64V1) :
    bank.layout.addresses * bank.layout.rowWords .wgpuU32 * (32 / 8) ≤ isizeMax := by
  have hbytes : bank.words.length * (64 / 8) ≤ isizeMax := bank.fits
  rw [bank.length_words] at hbytes
  calc bank.layout.addresses * bank.layout.rowWords .wgpuU32 * (32 / 8)
      ≤ bank.layout.addresses * (2 * bank.layout.rowWords .cpuU64) * (32 / 8) :=
        Nat.mul_le_mul_right _ (Nat.mul_le_mul_left _ bank.layout.rowWords_wgpu_le)
    _ = bank.layout.addresses * bank.layout.rowWords .cpuU64 * (64 / 8) := by
        rw [Nat.mul_left_comm]
        omega
    _ ≤ isizeMax := hbytes

private theorem validate_wordsU32 (bank : PvpCpuU64V1) :
    validatePvp .wgpuU32 bank.layout bank.wordsU32 = .ok ⟨⟩ := by
  refine validatePvp_eq_ok_iff.2
    ⟨bank.wgpu_gates_fit, length_tabulate _ _, fun address ha gate hle hlt => ?_⟩
  have hwords := bank.layout.rowWords_wgpu_le
  simp only [PvpPhysicalWordV1.bits] at hlt
  refine (bank.getLsbD_wordsU32 ha (by omega)).trans (bank.bit_padding ha hle ?_)
  simp only [PvpPhysicalWordV1.bits]
  omega

/-- The projection to 32-bit words returns a bank with the same bits. -/
theorem toWgpuU32_spec (bank : PvpCpuU64V1) :
    ∃ bank', bank.toWgpuU32 = .ok bank' ∧ bank'.layout = bank.layout ∧
      ∀ address < bank.layout.addresses, ∀ gate < bank.layout.gates,
        bank'.bit address gate = bank.bit address gate := by
  have hlength : bank.wordsU32.length * (32 / 8) ≤ isizeMax := by
    rw [wordsU32, length_tabulate]
    exact bank.wordsU32_fits
  refine ⟨⟨bank.layout, bank.wordsU32, bank.validate_wordsU32, hlength⟩, ?_, rfl,
    fun address ha gate hgate => ?_⟩
  · rw [toWgpuU32, PvpLayoutAdapterV1.wordsPerAddress_of_lt bank.gates_fit, Except.ok_bind,
      PvpLayoutAdapterV1.wordsPerAddress_of_lt bank.wgpu_gates_fit, Except.ok_bind,
      PvpLayoutAdapterV1.storageWords_of_lt bank.wgpu_gates_fit, Except.ok_bind, zeroedWords,
      if_pos bank.wordsU32_fits, Except.ok_bind, projectAddresses_eq, Except.ok_bind]
    exact new_eq_ok bank.validate_wordsU32 hlength
  · exact bank.getLsbD_wordsU32 ha (PvpLayoutAdapterV1.gate_div_lt .wgpuU32 hgate)

/-! ### To 64-bit words -/

/-- A 64-bit word of an address after some of its 32-bit words were joined. -/
def joinedWord (bank : PvpWgpuU32V1) (address count word : ℕ) : BitVec 64 :=
  let source (half : ℕ) : BitVec 64 :=
    (bank.words.getD (address * bank.layout.rowWords .wgpuU32 + half) 0).setWidth 64
  (if 2 * word < count then source (2 * word) else 0) |||
    (if 2 * word + 1 < count then source (2 * word + 1) <<< 32 else 0)

private theorem joinedWord_of_ne (bank : PvpWgpuU32V1) (address : ℕ) {count word : ℕ}
    (h : word ≠ count / 2) :
    bank.joinedWord address (count + 1) word = bank.joinedWord address count word := by
  have hlow : 2 * word < count + 1 ↔ 2 * word < count := by omega
  have hhigh : 2 * word + 1 < count + 1 ↔ 2 * word + 1 < count := by omega
  simp only [joinedWord, hlow, hhigh]

private theorem joinedWord_succ (bank : PvpWgpuU32V1) (address count : ℕ) :
    bank.joinedWord address (count + 1) (count / 2) =
      bank.joinedWord address count (count / 2) |||
        (bank.words.getD (address * bank.layout.rowWords .wgpuU32 + count) 0).setWidth 64 <<<
          (count % 2 * 32) := by
  have hsplit : 2 * (count / 2) + count % 2 = count := Nat.div_add_mod count 2
  rcases Nat.mod_two_eq_zero_or_one count with hmod | hmod
  · have heven : 2 * (count / 2) = count := by omega
    simp only [joinedWord, hmod, heven, if_pos (Nat.lt_succ_self count), Nat.lt_irrefl, if_false,
      Nat.zero_mul, BitVec.shiftLeft_zero, BitVec.or_zero, BitVec.zero_or, BitVec.ofNat_eq_ofNat,
      show ¬ count + 1 < count by omega]
  · have hodd : 2 * (count / 2) + 1 = count := by omega
    simp only [joinedWord, hmod, hodd, if_pos (Nat.lt_succ_self count), Nat.lt_irrefl, if_false,
      Nat.one_mul, BitVec.or_zero, BitVec.ofNat_eq_ofNat, show 2 * (count / 2) < count by omega,
      show 2 * (count / 2) < count + 1 by omega, if_true]

private theorem getLsbD_joinedWord (bank : PvpWgpuU32V1) (address gate : ℕ) :
    (bank.joinedWord address (bank.layout.rowWords .wgpuU32) (gate / 64)).getLsbD (gate % 64) =
      (decide (gate / 32 < bank.layout.rowWords .wgpuU32) && bank.bit address gate) := by
  have hlt : gate % 64 < 64 := Nat.mod_lt _ (by decide)
  rw [joinedWord, BitVec.getLsbD_or, bit]
  rcases Nat.lt_or_ge (gate % 64) 32 with hlow | hhigh
  · have hword : 2 * (gate / 64) = gate / 32 := by omega
    have hmod : gate % 64 = gate % 32 := by omega
    rw [hword, hmod]
    have hzero : (if gate / 32 + 1 < bank.layout.rowWords .wgpuU32 then
        (bank.words.getD (address * bank.layout.rowWords .wgpuU32 + (gate / 32 + 1)) 0).setWidth 64
          <<< 32 else 0).getLsbD (gate % 32) = false := by
      split_ifs
      · rw [BitVec.getLsbD_shiftLeft, decide_eq_true (Nat.mod_lt gate (by decide : 0 < 32))]
        simp
      · exact BitVec.getLsbD_zero
    rw [hzero, Bool.or_false]
    split_ifs with h
    · rw [decide_eq_true h, Bool.true_and, BitVec.getLsbD_setWidth,
        decide_eq_true (by omega : gate % 32 < 64), Bool.true_and]
    · rw [decide_eq_false h, Bool.false_and]
      exact BitVec.getLsbD_zero
  · have hword : 2 * (gate / 64) + 1 = gate / 32 := by omega
    have hmod : gate % 64 - 32 = gate % 32 := by omega
    rw [hword]
    have hzero : (if 2 * (gate / 64) < bank.layout.rowWords .wgpuU32 then
        (bank.words.getD (address * bank.layout.rowWords .wgpuU32 + 2 * (gate / 64)) 0).setWidth 64
          else 0).getLsbD (gate % 64) = false := by
      split_ifs
      · rw [BitVec.getLsbD_setWidth, BitVec.getLsbD_of_ge _ _ hhigh, Bool.and_false]
      · exact BitVec.getLsbD_zero
    rw [hzero, Bool.false_or]
    split_ifs with h
    · rw [decide_eq_true h, Bool.true_and, BitVec.getLsbD_shiftLeft, decide_eq_true hlt,
        decide_eq_false (by omega : ¬ gate % 64 < 32), hmod, BitVec.getLsbD_setWidth,
        decide_eq_true (by omega : gate % 32 < 64)]
      rfl
    · rw [decide_eq_false h, Bool.false_and]
      exact BitVec.getLsbD_zero

private theorem joinWord_eq (bank : PvpWgpuU32V1) {address word : ℕ}
    (ha : address < bank.layout.addresses) (hw : word < bank.layout.rowWords .wgpuU32)
    {f : ℕ → BitVec 64}
    (hf : f (address * bank.layout.rowWords .cpuU64 + word / 2) =
      bank.joinedWord address word (word / 2)) :
    joinWord bank.words (address * bank.layout.rowWords .wgpuU32)
        (address * bank.layout.rowWords .cpuU64)
        (tabulate (bank.layout.addresses * bank.layout.rowWords .cpuU64) f) word =
      .ok (tabulate (bank.layout.addresses * bank.layout.rowWords .cpuU64)
        (Function.update f (address * bank.layout.rowWords .cpuU64 + word / 2)
          (bank.joinedWord address (word + 1) (word / 2)))) := by
  have hle := bank.layout.rowWords_wgpu_le
  have hsource : address * bank.layout.rowWords .wgpuU32 + word < bank.words.length := by
    rw [bank.length_words]
    exact PvpLayoutAdapterV1.index_lt ha hw
  rw [joinWord, Outcome.index_of_lt hsource, Except.ok_bind,
    Outcome.modifyAt_tabulate (PvpLayoutAdapterV1.index_lt ha (by omega)), joinedWord_succ, hf,
    List.getD_eq_getElem?_getD, List.getElem?_eq_getElem hsource, Option.getD_some]

/-- The 64-bit words of a bank. -/
def wordsU64 (bank : PvpWgpuU32V1) : List (BitVec 64) :=
  tabulate (bank.layout.addresses * bank.layout.rowWords .cpuU64) fun i =>
    bank.joinedWord (i / bank.layout.rowWords .cpuU64) (bank.layout.rowWords .wgpuU32)
      (i % bank.layout.rowWords .cpuU64)

private theorem joinAddresses_eq (bank : PvpWgpuU32V1) :
    (List.range bank.layout.addresses).foldlM
        (joinAddress bank.words (bank.layout.rowWords .wgpuU32) (bank.layout.rowWords .cpuU64))
        (List.replicate (bank.layout.addresses * bank.layout.rowWords .cpuU64) 0) =
      .ok bank.wordsU64 := by
  have hle := bank.layout.rowWords_wgpu_le
  rw [replicate_eq_tabulate, wordsU64]
  refine Outcome.foldlM_rows (bank.layout.rowWords .wgpuU32) bank.joinedWord
    (fun address => joinWord bank.words (address * bank.layout.rowWords .wgpuU32)
      (address * bank.layout.rowWords .cpuU64)) ?_ ?_ ?_
  · intro address ha l
    rw [joinAddress, PvpLayoutAdapterV1.checkedMul_rowWords ha,
      PvpLayoutAdapterV1.checkedMul_rowWords ha]
    rfl
  · intro address ha n hn f hf
    have hlt : n / 2 < bank.layout.rowWords .cpuU64 := by omega
    refine ⟨_, joinWord_eq bank ha hn (hf _ hlt), fun word hw => ?_, fun i hi => ?_⟩
    · rcases eq_or_ne word (n / 2) with rfl | hne
      · rw [Function.update_self]
      · rw [Function.update_of_ne (by omega), hf word hw, joinedWord_of_ne bank address hne]
    · refine Function.update_of_ne (fun h => hi ?_) _ _
      rw [h, Nat.mul_comm, Nat.mul_add_div (by omega), Nat.div_eq_of_lt hlt, Nat.add_zero]
  · intro address _ word _
    simp [joinedWord]

theorem getLsbD_wordsU64 (bank : PvpWgpuU32V1) {address gate : ℕ}
    (ha : address < bank.layout.addresses) (hgate : gate / 64 < bank.layout.rowWords .cpuU64) :
    (bank.wordsU64.getD (address * bank.layout.rowWords .cpuU64 + gate / 64) 0).getLsbD
      (gate % 64) =
        (decide (gate / 32 < bank.layout.rowWords .wgpuU32) && bank.bit address gate) := by
  have hdiv : (address * bank.layout.rowWords .cpuU64 + gate / 64) /
      bank.layout.rowWords .cpuU64 = address := by
    rw [Nat.mul_comm, Nat.mul_add_div (by omega), Nat.div_eq_of_lt hgate, Nat.add_zero]
  have hmod : (address * bank.layout.rowWords .cpuU64 + gate / 64) %
      bank.layout.rowWords .cpuU64 = gate / 64 := by
    rw [Nat.mul_comm, Nat.mul_add_mod, Nat.mod_eq_of_lt hgate]
  rw [wordsU64, getD_tabulate (PvpLayoutAdapterV1.index_lt ha hgate), hdiv, hmod,
    getLsbD_joinedWord]

private theorem validate_wordsU64 {bank : PvpWgpuU32V1}
    (hgates : bank.layout.gates + 63 < wordLimit) :
    validatePvp .cpuU64 bank.layout bank.wordsU64 = .ok ⟨⟩ := by
  refine validatePvp_eq_ok_iff.2
    ⟨hgates, length_tabulate _ _, fun address ha gate hle hlt => ?_⟩
  simp only [PvpPhysicalWordV1.bits] at hlt
  refine (bank.getLsbD_wordsU64 ha (by omega)).trans ?_
  by_cases hword : gate / 32 < bank.layout.rowWords .wgpuU32
  · rw [bank.bit_padding ha hle (by simp only [PvpPhysicalWordV1.bits]; omega), Bool.and_false]
  · rw [decide_eq_false hword, Bool.false_and]

/-- The 64-bit words of a layout can be counted and allocated. -/
def FitsU64 (layout : PvpLayoutAdapterV1) : Prop :=
  layout.gates + 63 < wordLimit ∧ layout.addresses * layout.rowWords .cpuU64 * 8 ≤ isizeMax

/-- The projection to 64-bit words returns exactly when the words can be counted and allocated,
and then a bank with the same bits. -/
theorem toCpuU64_spec (bank : PvpWgpuU32V1) :
    ((∃ bank', bank.toCpuU64 = .ok bank') ↔ FitsU64 bank.layout) ∧
      ∀ bank', bank.toCpuU64 = .ok bank' → bank'.layout = bank.layout ∧
        ∀ address < bank.layout.addresses, ∀ gate < bank.layout.gates,
          bank'.bit address gate = bank.bit address gate := by
  have hrun : ∀ bank', bank.toCpuU64 = .ok bank' ↔
      FitsU64 bank.layout ∧ bank'.layout = bank.layout ∧ bank'.words = bank.wordsU64 := by
    intro bank'
    rw [toCpuU64, PvpLayoutAdapterV1.wordsPerAddress_of_lt bank.gates_fit, Except.ok_bind,
      Except.bind_eq_ok_iff]
    simp only [PvpLayoutAdapterV1.wordsPerAddress_eq_ok_iff]
    constructor
    · rintro ⟨_, ⟨hgates, rfl⟩, h⟩
      rw [PvpLayoutAdapterV1.storageWords_of_lt hgates, Except.ok_bind, zeroedWords] at h
      split_ifs at h with hbytes
      · rw [Except.ok_bind, joinAddresses_eq, Except.ok_bind, new_eq_ok_iff] at h
        exact ⟨⟨hgates, hbytes⟩, h⟩
      · exact nomatch h
    · rintro ⟨⟨hgates, hbytes⟩, h⟩
      refine ⟨_, ⟨hgates, rfl⟩, ?_⟩
      rw [PvpLayoutAdapterV1.storageWords_of_lt hgates, Except.ok_bind, zeroedWords,
        if_pos hbytes, Except.ok_bind, joinAddresses_eq, Except.ok_bind, new_eq_ok_iff]
      exact h
  refine ⟨⟨fun ⟨bank', h⟩ => ((hrun bank').1 h).1, fun hfits => ?_⟩, fun bank' h => ?_⟩
  · have hlength : bank.wordsU64.length * (64 / 8) ≤ isizeMax := by
      rw [wordsU64, length_tabulate]
      exact hfits.2
    exact ⟨⟨bank.layout, bank.wordsU64, validate_wordsU64 hfits.1, hlength⟩,
      (hrun _).2 ⟨hfits, rfl, rfl⟩⟩
  · obtain ⟨-, hlayout, hwords⟩ := (hrun bank').1 h
    refine ⟨hlayout, fun address ha gate hgate => ?_⟩
    rw [bit, hlayout, hwords]
    refine (bank.getLsbD_wordsU64 ha
      (PvpLayoutAdapterV1.gate_div_lt .cpuU64 hgate)).trans ?_
    rw [decide_eq_true, Bool.true_and]
    exact PvpLayoutAdapterV1.gate_div_lt .wgpuU32 hgate

/-- A bank with as many words as its layout asks for, all of them zero. -/
def zeroes (physical : PvpPhysicalWordV1) (layout : PvpLayoutAdapterV1)
    (hgates : layout.gates + (physical.bits - 1) < wordLimit)
    (hbytes : layout.addresses * layout.rowWords physical * (physical.bits / 8) ≤ isizeMax) :
    PvpBank physical where
  layout := layout
  words := List.replicate (layout.addresses * layout.rowWords physical) 0
  valid := validatePvp_eq_ok_iff.2
    ⟨hgates, List.length_replicate, fun address ha gate _ hgate => by
      have hbits : 0 < physical.bits := by cases physical <;> decide
      rw [replicate_eq_tabulate, getD_tabulate (PvpLayoutAdapterV1.index_lt ha
        (Nat.div_lt_of_lt_mul (by rwa [Nat.mul_comm])))]
      exact BitVec.getLsbD_zero⟩
  fits := by rwa [List.length_replicate]

/-! ### The projections undo each other -/

theorem toCpuU64_of_toWgpuU32 {bank : PvpCpuU64V1} {bank' : PvpWgpuU32V1}
    (h : bank.toWgpuU32 = .ok bank') : bank'.toCpuU64 = .ok bank := by
  obtain ⟨projected, hrun, hlayout, hbits⟩ := bank.toWgpuU32_spec
  obtain rfl : bank' = projected := Except.ok.inj (h.symm.trans hrun)
  have hfits : FitsU64 bank'.layout := by
    rw [hlayout]
    refine ⟨bank.gates_fit, ?_⟩
    rw [← bank.length_words]
    exact bank.fits
  obtain ⟨bank'', hrun'⟩ := bank'.toCpuU64_spec.1.2 hfits
  obtain ⟨hlayout', hbits'⟩ := bank'.toCpuU64_spec.2 bank'' hrun'
  rw [hrun']
  refine congrArg _ (ext_bit (hlayout'.trans hlayout) fun address ha gate hgate => ?_)
  rw [hlayout', hlayout] at ha hgate
  rw [hbits' address (by rwa [hlayout]) gate (by rwa [hlayout]), hbits address ha gate hgate]

theorem toWgpuU32_of_toCpuU64 {bank : PvpWgpuU32V1} {bank' : PvpCpuU64V1}
    (h : bank.toCpuU64 = .ok bank') : bank'.toWgpuU32 = .ok bank := by
  obtain ⟨hlayout, hbits⟩ := bank.toCpuU64_spec.2 bank' h
  obtain ⟨bank'', hrun', hlayout', hbits'⟩ := bank'.toWgpuU32_spec
  rw [hrun']
  refine congrArg _ (ext_bit (hlayout'.trans hlayout) fun address ha gate hgate => ?_)
  rw [hlayout', hlayout] at ha hgate
  rw [hbits' address (by rwa [hlayout]) gate (by rwa [hlayout]), hbits address ha gate hgate]

end PvpBank

/-- The projection to 32-bit words returns for every bank; that to 64-bit words returns exactly when
the 64-bit words can be counted and allocated. Both keep the layout and the bits and undo each
other. -/
theorem pvpProjection_inverse :
    (∀ bank : PvpCpuU64V1, ∃ bank', bank.toWgpuU32 = .ok bank' ∧ bank'.layout = bank.layout ∧
      (∀ address < bank.layout.addresses, ∀ gate < bank.layout.gates,
        bank'.bit address gate = bank.bit address gate) ∧ bank'.toCpuU64 = .ok bank) ∧
    ∀ bank : PvpWgpuU32V1,
      ((∃ bank', bank.toCpuU64 = .ok bank') ↔
        bank.layout.gates + 63 < wordLimit ∧
          bank.layout.addresses * bank.layout.rowWords .cpuU64 * 8 ≤ isizeMax) ∧
      ∀ bank', bank.toCpuU64 = .ok bank' → bank'.layout = bank.layout ∧
        (∀ address < bank.layout.addresses, ∀ gate < bank.layout.gates,
          bank'.bit address gate = bank.bit address gate) ∧ bank'.toWgpuU32 = .ok bank := by
  refine ⟨fun bank => ?_, fun bank => ⟨bank.toCpuU64_spec.1, fun bank' h => ?_⟩⟩
  · obtain ⟨bank', hrun, hlayout, hbits⟩ := bank.toWgpuU32_spec
    exact ⟨bank', hrun, hlayout, hbits, PvpBank.toCpuU64_of_toWgpuU32 hrun⟩
  · obtain ⟨hlayout, hbits⟩ := bank.toCpuU64_spec.2 bank' h
    exact ⟨hlayout, hbits, PvpBank.toWgpuU32_of_toCpuU64 h⟩

/-- One address with so many gates that they cannot be rounded to 64-bit words, in 32-bit words. -/
def unjoinableBank : PvpWgpuU32V1 :=
  PvpBank.zeroes .wgpuU32 ⟨1, 2 ^ 64 - 40, ⟨0, rfl⟩, by decide, by decide⟩ (by decide) (by decide)

/-- A valid bank in 32-bit words need not have a projection. -/
theorem toCpuU64_unjoinableBank :
    unjoinableBank.toCpuU64 = .error (.error .arithmeticOverflow) := by
  have hwgpu := PvpLayoutAdapterV1.wordsPerAddress_of_lt unjoinableBank.gates_fit
  have hcpu : unjoinableBank.layout.wordsPerAddress .cpuU64 =
      .error (.error .arithmeticOverflow) := rfl
  rw [PvpBank.toCpuU64, hwgpu, Except.ok_bind, hcpu]
  rfl

end NNIS
