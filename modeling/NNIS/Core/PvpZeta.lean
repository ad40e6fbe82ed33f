import NNIS.Core.PvpProjection
import NNIS.Numeric.SubsetZeta

/-!
# The transform of a bank

The exclusive or, at each address and gate, of the bits at all subsets of the address. A stage of
the transform acts on the words of a bank whatever their width: the word at an address with the
digit of the stage takes in the word at the address without it. The padding stays zero, so the
transform of a bank is a bank; it undoes itself and commutes with the projections.

## Main definitions

* `wordStage`, `wordTransform` — stages on the words of a bank.
* `PvpBank.zeta` — the transform of a bank.

## Main results

* `PvpBank.bit_zeta_eq_fold` — the bits of the transform.
* `PvpBank.zeta_zeta` — the transform undoes itself.
* `PvpBank.toWgpuU32_zeta` — the projection of a transform is the transform of the projection.
-/

set_option autoImplicit false

namespace NNIS

/-! ### Stages on words -/

section

variable {width : ℕ}

/-- The word at an address with digit `k` takes in the word at the address without it. -/
def wordStage (rowWords k : ℕ) (f : ℕ → BitVec width) (i : ℕ) : BitVec width :=
  if (i / rowWords).testBit k then f i ^^^ f (i - 2 ^ k * rowWords) else f i

/-- The first `n` stages. -/
def wordTransform (rowWords : ℕ) : ℕ → (ℕ → BitVec width) → ℕ → BitVec width
  | 0, f => f
  | n + 1, f => wordStage rowWords n (wordTransform rowWords n f)

variable {rowWords : ℕ}

theorem row_div {word : ℕ} (h : word < rowWords) (address : ℕ) :
    (address * rowWords + word) / rowWords = address := by
  rw [Nat.mul_comm, Nat.mul_add_div (by omega), Nat.div_eq_of_lt h, Nat.add_zero]

theorem row_mod {word : ℕ} (h : word < rowWords) (address : ℕ) :
    (address * rowWords + word) % rowWords = word := by
  rw [Nat.mul_comm, Nat.mul_add_mod, Nat.mod_eq_of_lt h]

theorem wordStage_row {word : ℕ} (h : word < rowWords) (k : ℕ) (f : ℕ → BitVec width)
    (address : ℕ) :
    wordStage rowWords k f (address * rowWords + word) =
      SubsetZeta.stage (· ^^^ ·) k (fun address => f (address * rowWords + word)) address := by
  rw [wordStage, row_div h, SubsetZeta.stage]
  refine if_ctx_congr Iff.rfl (fun hbit => ?_) fun _ => rfl
  have hle : 2 ^ k ≤ address := Nat.ge_two_pow_of_testBit hbit
  rw [Nat.sub_mul, Nat.sub_add_comm (Nat.mul_le_mul_right _ hle)]

theorem wordTransform_row {word : ℕ} (h : word < rowWords) (n : ℕ) (f : ℕ → BitVec width)
    (address : ℕ) :
    wordTransform rowWords n f (address * rowWords + word) =
      SubsetZeta.transform (· ^^^ ·) n (fun address => f (address * rowWords + word)) address := by
  induction n generalizing address with
  | zero => rfl
  | succ n ih =>
    rw [wordTransform, wordStage_row h, SubsetZeta.transform]
    simp only [ih]

end

/-! ### Addresses -/

namespace PvpLayoutAdapterV1

variable (layout : PvpLayoutAdapterV1)

theorem addresses_lt : layout.addresses < wordLimit :=
  Nat.lt_of_le_of_lt (Nat.le_mul_of_pos_right _ (Nat.pos_of_ne_zero layout.gates_ne)) layout.fits

/-- There is a stage for each digit of an address. -/
theorem addresses_eq : layout.addresses = 2 ^ layout.stages := by
  obtain ⟨k, hk⟩ := layout.isPowerOfTwo
  have hlt : k < 64 := by
    have haddresses := layout.addresses_lt
    rw [hk] at haddresses
    exact (Nat.pow_lt_pow_iff_right (by decide)).1 haddresses
  have htrailing : ∀ k < 64, trailingZeros (2 ^ k) = k := by decide
  rw [stages, hk, htrailing k hlt]

end PvpLayoutAdapterV1

/-! ### The transform of a bank -/

namespace PvpBank

variable {physical : PvpPhysicalWordV1} (bank : PvpBank physical)

/-- The words of the transform. -/
def zetaWords : List (BitVec physical.bits) :=
  tabulate (bank.layout.addresses * bank.layout.rowWords physical)
    (wordTransform (bank.layout.rowWords physical) bank.layout.stages (bank.words.getD · 0))

private theorem getLsbD_zetaWords {address gate : ℕ} (ha : address < bank.layout.addresses)
    (hgate : gate / physical.bits < bank.layout.rowWords physical) :
    (bank.zetaWords.getD (address * bank.layout.rowWords physical + gate / physical.bits)
        0).getLsbD (gate % physical.bits) =
      SubsetZeta.transform xor bank.layout.stages (bank.bit · gate) address := by
  rw [zetaWords, getD_tabulate (PvpLayoutAdapterV1.index_lt ha hgate), wordTransform_row hgate]
  have hop : ∀ a b : BitVec physical.bits, (a ^^^ b).getLsbD (gate % physical.bits) =
      xor (a.getLsbD (gate % physical.bits)) (b.getLsbD (gate % physical.bits)) :=
    fun _ _ => BitVec.getLsbD_xor
  exact SubsetZeta.map_transform (fun word : BitVec physical.bits =>
    word.getLsbD (gate % physical.bits)) hop _ _ _

private theorem transform_false (n m : ℕ) :
    SubsetZeta.transform xor n (fun _ => false) m = false := by
  induction n generalizing m with
  | zero => rfl
  | succ n ih => simp [SubsetZeta.transform, SubsetZeta.stage, ih]

private theorem validate_zetaWords :
    validatePvp physical bank.layout bank.zetaWords = .ok ⟨⟩ := by
  refine validatePvp_eq_ok_iff.2
    ⟨bank.gates_fit, length_tabulate _ _, fun address ha gate hle hlt => ?_⟩
  have hword : gate / physical.bits < bank.layout.rowWords physical :=
    Nat.div_lt_of_lt_mul (by rwa [Nat.mul_comm])
  rw [bank.getLsbD_zetaWords ha hword,
    ← transform_false bank.layout.stages address]
  have hpadding : ∀ m < bank.layout.addresses, bank.bit m gate = false :=
    fun m hm => bank.bit_padding hm hle hlt
  exact SubsetZeta.transform_congr hpadding address ha

/-- The transform of a bank. -/
def zeta : PvpBank physical where
  layout := bank.layout
  words := bank.zetaWords
  valid := bank.validate_zetaWords
  fits := by
    rw [zetaWords, length_tabulate, ← bank.length_words]
    exact bank.fits

theorem bit_zeta {address gate : ℕ} (ha : address < bank.layout.addresses)
    (hgate : gate < bank.layout.gates) :
    bank.zeta.bit address gate =
      SubsetZeta.transform xor bank.layout.stages (bank.bit · gate) address :=
  bank.getLsbD_zetaWords ha (PvpLayoutAdapterV1.gate_div_lt physical hgate)

/-- The bit of the transform at an address is the exclusive or of the bits at its subsets. -/
theorem bit_zeta_eq_fold {address gate : ℕ} (ha : address < bank.layout.addresses)
    (hgate : gate < bank.layout.gates) :
    bank.zeta.bit address gate =
      (SubsetZeta.submasks address).fold xor false (bank.bit · gate) := by
  rw [bank.bit_zeta ha hgate]
  exact SubsetZeta.transform_eq_fold (by rwa [← bank.layout.addresses_eq]) _

/-- The transform undoes itself. -/
theorem zeta_zeta : bank.zeta.zeta = bank := by
  refine ext_bit rfl fun address ha gate hgate => ?_
  refine (bank.zeta.bit_zeta ha hgate).trans ?_
  have hinner : ∀ m < bank.layout.addresses, bank.zeta.bit m gate =
      SubsetZeta.transform xor bank.layout.stages (bank.bit · gate) m :=
    fun m hm => bank.bit_zeta hm hgate
  refine (SubsetZeta.transform_congr hinner address ha).trans ?_
  refine congrFun (SubsetZeta.transform_transform (fun a b => ?_) _ _) address
  rw [Bool.xor_assoc, Bool.xor_self, Bool.xor_false]

/-- Banks with the same bits have transforms with the same bits. -/
theorem bit_zeta_congr {physical' : PvpPhysicalWordV1} {bank : PvpBank physical}
    {bank' : PvpBank physical'} (hlayout : bank'.layout = bank.layout)
    (hbits : ∀ address < bank.layout.addresses, ∀ gate < bank.layout.gates,
      bank'.bit address gate = bank.bit address gate) :
    ∀ address < bank.layout.addresses, ∀ gate < bank.layout.gates,
      bank'.zeta.bit address gate = bank.zeta.bit address gate := by
  intro address ha gate hgate
  rw [bank.bit_zeta ha hgate, bank'.bit_zeta (by rwa [hlayout]) (by rwa [hlayout]), hlayout]
  exact SubsetZeta.transform_congr (fun m hm => hbits m hm gate hgate) address ha

/-- The projection of the transform is the transform of the projection. -/
theorem toWgpuU32_zeta {bank : PvpCpuU64V1} {bank' : PvpWgpuU32V1}
    (h : bank.toWgpuU32 = .ok bank') : bank.zeta.toWgpuU32 = .ok bank'.zeta := by
  obtain ⟨projected, hrun, hlayout, hbits⟩ := bank.toWgpuU32_spec
  obtain rfl : projected = bank' := Except.ok.inj (hrun.symm.trans h)
  obtain ⟨projected', hrun', hlayout', hbits'⟩ := bank.zeta.toWgpuU32_spec
  rw [hrun']
  refine congrArg _ (ext_bit (hlayout'.trans hlayout.symm) fun address ha gate hgate => ?_)
  rw [hlayout'] at ha hgate
  rw [hbits' address ha gate hgate, bit_zeta_congr hlayout hbits address ha gate hgate]

end PvpBank

end NNIS
