import NNIS.Cpu.Pvp
import NNIS.Wgpu.Pvp

/-!
# The WGPU and the CPU session agree

Invocation `linear` of a stage belongs to the pair `linear / wordsPerAddress`, and the pairs of
stage `k` are the addresses that have digit `k`, so an invocation is determined by the word that it
writes. The words that a stage reads and does not write are at addresses without the digit. Whatever
the order of the invocations, the words written so far are those of the invocations that have run.

## Main results

* `pvpPairIndices_stage`, `pvpPairIndices_surplus` — the words of an invocation.
* `dispatch_pvpSubsetZetaStage` — a dispatch is a stage, in any order of its invocations.
* `wgpuPvp_executeSubsetZeta_correct` — the execution and its agreement with the CPU.
-/

set_option autoImplicit false

namespace NNIS

/-! ### Pairs of addresses -/

/-- The lower address of a pair of stage `k`. -/
def pairAddress (k pair : ℕ) : ℕ := 2 ^ (k + 1) * (pair / 2 ^ k) + pair % 2 ^ k

/-- The pair of an upper address. -/
def pairOf (k address : ℕ) : ℕ := 2 ^ k * (address / 2 ^ (k + 1)) + address % 2 ^ k

theorem testBit_pairAddress (k pair : ℕ) : (pairAddress k pair).testBit k = false :=
  testBit_block (Nat.mod_lt _ (Nat.two_pow_pos k)) _

theorem testBit_pairAddress_add (k pair : ℕ) : (pairAddress k pair + 2 ^ k).testBit k = true :=
  testBit_block_add (Nat.mod_lt _ (Nat.two_pow_pos k)) _

/-- An upper address is that of its pair. -/
theorem pairAddress_pairOf {k address : ℕ} (h : address.testBit k = true) :
    pairAddress k (pairOf k address) + 2 ^ k = address := by
  have hpos : 0 < 2 ^ k := Nat.two_pow_pos k
  have hdiv : pairOf k address / 2 ^ k = address / 2 ^ (k + 1) := by
    rw [pairOf, Nat.mul_add_div hpos, Nat.div_eq_of_lt (Nat.mod_lt _ hpos), Nat.add_zero]
  have hmod : pairOf k address % 2 ^ k = address % 2 ^ k := by
    rw [pairOf, Nat.mul_add_mod, Nat.mod_mod]
  have hbit : address / 2 ^ k % 2 = 1 := by
    rwa [Nat.testBit_eq_decide_div_mod_eq, decide_eq_true_eq] at h
  have hlow : address % 2 ^ (k + 1) = address % 2 ^ k + 2 ^ k := by
    rw [Nat.pow_succ, Nat.mod_mul, hbit, Nat.mul_one]
  rw [pairAddress, hdiv, hmod, Nat.add_assoc, ← hlow, Nat.div_add_mod]

/-- A pair is that of its upper address. -/
theorem pairOf_pairAddress (k pair : ℕ) : pairOf k (pairAddress k pair + 2 ^ k) = pair := by
  have hpos : 0 < 2 ^ k := Nat.two_pow_pos k
  have hlt : pair % 2 ^ k < 2 ^ k := Nat.mod_lt _ hpos
  have hoffset : pair % 2 ^ k + 2 ^ k < 2 ^ (k + 1) := by rw [Nat.pow_succ]; omega
  have hdiv : (pairAddress k pair + 2 ^ k) / 2 ^ (k + 1) = pair / 2 ^ k := by
    rw [pairAddress, Nat.add_assoc, Nat.mul_add_div (Nat.two_pow_pos _), Nat.div_eq_of_lt hoffset,
      Nat.add_zero]
  have hmod : (pairAddress k pair + 2 ^ k) % 2 ^ k = pair % 2 ^ k := by
    rw [pairAddress, Nat.add_mod_right, Nat.pow_succ, Nat.mul_assoc, Nat.mul_add_mod, Nat.mod_mod]
  rw [pairOf, hdiv, hmod, Nat.div_add_mod]

/-- The pairs of the addresses below `2 ^ n` are those below `2 ^ n / 2`. -/
theorem pairAddress_lt_iff {k n pair : ℕ} (hk : k < n) :
    pairAddress k pair + 2 ^ k < 2 ^ n ↔ pair < 2 ^ n / 2 := by
  obtain ⟨m, rfl⟩ : ∃ m, n = k + 1 + m := ⟨n - (k + 1), by omega⟩
  have hpos : 0 < 2 ^ k := Nat.two_pow_pos k
  have hlt : pair % 2 ^ k < 2 ^ k := Nat.mod_lt _ hpos
  have hhalf : 2 ^ (k + 1 + m) / 2 = 2 ^ k * 2 ^ m := by
    rw [Nat.pow_add, Nat.pow_succ, Nat.mul_right_comm, Nat.mul_div_cancel _ (by decide)]
  have hpair : pair < 2 ^ k * 2 ^ m ↔ pair / 2 ^ k < 2 ^ m := by
    rw [Nat.div_lt_iff_lt_mul hpos, Nat.mul_comm]
  have hpow : 2 ^ (k + 1 + m) = 2 ^ (k + 1) * 2 ^ m := Nat.pow_add ..
  rw [hhalf, hpair, pairAddress, hpow, Nat.add_assoc]
  constructor
  · intro h
    have hlt' : 2 ^ (k + 1) * (pair / 2 ^ k) < 2 ^ (k + 1) * 2 ^ m :=
      Nat.lt_of_le_of_lt (Nat.le_add_right ..) h
    exact Nat.lt_of_mul_lt_mul_left hlt'
  · intro h
    calc 2 ^ (k + 1) * (pair / 2 ^ k) + (pair % 2 ^ k + 2 ^ k)
        < 2 ^ (k + 1) * (pair / 2 ^ k) + 2 ^ (k + 1) := by rw [Nat.pow_succ]; omega
      _ = 2 ^ (k + 1) * (pair / 2 ^ k + 1) := (Nat.mul_add_one ..).symm
      _ ≤ 2 ^ (k + 1) * 2 ^ m := Nat.mul_le_mul_left _ h

/-! ### The words of an invocation -/

section

variable {layout : PvpLayoutAdapterV1} {k linear : ℕ}

/-- The parameters of stage `k`. -/
def stageParams (layout : PvpLayoutAdapterV1) (k : ℕ) : WgpuPvpParams :=
  ⟨layout.addresses, layout.rowWords .wgpuU32, 2 ^ k, layout.addresses / 2⟩

/-- The words can be indexed with 32 bits. -/
def Indexable (layout : PvpLayoutAdapterV1) : Prop :=
  layout.addresses * layout.rowWords .wgpuU32 < wordLimit32

/-- The invocation that writes a word. -/
def invocationOf (layout : PvpLayoutAdapterV1) (k i : ℕ) : ℕ :=
  pairOf k (i / layout.rowWords .wgpuU32) * layout.rowWords .wgpuU32 + i % layout.rowWords .wgpuU32

/-- The word that an invocation writes. -/
def targetOf (layout : PvpLayoutAdapterV1) (k linear : ℕ) : ℕ :=
  (pairAddress k (linear / layout.rowWords .wgpuU32) + 2 ^ k) * layout.rowWords .wgpuU32 +
    linear % layout.rowWords .wgpuU32

private theorem word_lt : linear % layout.rowWords .wgpuU32 < layout.rowWords .wgpuU32 :=
  Nat.mod_lt _ layout.rowWords_pos

theorem targetOf_div : targetOf layout k linear / layout.rowWords .wgpuU32 =
    pairAddress k (linear / layout.rowWords .wgpuU32) + 2 ^ k := row_div word_lt _

theorem invocationOf_targetOf : invocationOf layout k (targetOf layout k linear) = linear := by
  rw [invocationOf, targetOf_div, pairOf_pairAddress, targetOf, row_mod word_lt, Nat.mul_comm,
    Nat.div_add_mod]

theorem targetOf_invocationOf {i : ℕ} (h : (i / layout.rowWords .wgpuU32).testBit k = true) :
    targetOf layout k (invocationOf layout k i) = i := by
  rw [targetOf, invocationOf, row_div word_lt, row_mod word_lt, pairAddress_pairOf h, Nat.mul_comm,
    Nat.div_add_mod]

private theorem target_address_lt (hk : k < layout.stages)
    (hlinear : linear < layout.addresses / 2 * layout.rowWords .wgpuU32) :
    pairAddress k (linear / layout.rowWords .wgpuU32) + 2 ^ k < layout.addresses := by
  rw [layout.addresses_eq, pairAddress_lt_iff hk, ← layout.addresses_eq]
  exact Nat.div_lt_of_lt_mul (by rwa [Nat.mul_comm])

theorem targetOf_lt (hk : k < layout.stages)
    (hlinear : linear < layout.addresses / 2 * layout.rowWords .wgpuU32) :
    targetOf layout k linear < layout.addresses * layout.rowWords .wgpuU32 :=
  PvpLayoutAdapterV1.index_lt (target_address_lt hk hlinear) word_lt

private theorem total_lt (hfits : Indexable layout) :
    layout.addresses / 2 * layout.rowWords .wgpuU32 < wordLimit32 :=
  Nat.lt_of_le_of_lt (Nat.mul_le_mul_right _ (Nat.div_le_self ..)) hfits

/-- The words of an invocation: no arithmetic of the kernel wraps. -/
theorem pvpPairIndices_stage (hfits : Indexable layout) (hk : k < layout.stages)
    (hlinear : linear < layout.addresses / 2 * layout.rowWords .wgpuU32) :
    pvpPairIndices (stageParams layout k) linear =
      .ok (some (targetOf layout k linear - 2 ^ k * layout.rowWords .wgpuU32,
        targetOf layout k linear)) := by
  have htarget := target_address_lt hk hlinear
  have hindex := targetOf_lt hk hlinear
  have hrow : 0 < layout.rowWords .wgpuU32 := layout.rowWords_pos
  have haddresses : layout.addresses < wordLimit32 :=
    Nat.lt_of_le_of_lt (Nat.le_mul_of_pos_right _ hrow) hfits
  have hblock : linear / layout.rowWords .wgpuU32 / 2 ^ k * (2 * 2 ^ k) +
      linear / layout.rowWords .wgpuU32 % 2 ^ k =
        pairAddress k (linear / layout.rowWords .wgpuU32) := by
    rw [pairAddress, Nat.pow_succ, Nat.mul_comm 2, Nat.mul_comm (_ / _)]
  have hdouble : 2 * 2 ^ k < wordLimit32 := by
    have hle : 2 ^ (k + 1) ≤ layout.addresses := by
      rw [layout.addresses_eq]
      exact Nat.pow_le_pow_right (by decide) hk
    rw [Nat.pow_succ] at hle
    omega
  have hlow : linear / layout.rowWords .wgpuU32 / 2 ^ k * (2 * 2 ^ k) ≤
      pairAddress k (linear / layout.rowWords .wgpuU32) := by
    rw [← hblock]
    exact Nat.le_add_right ..
  have hsource : targetOf layout k linear =
      pairAddress k (linear / layout.rowWords .wgpuU32) * layout.rowWords .wgpuU32 +
        linear % layout.rowWords .wgpuU32 + 2 ^ k * layout.rowWords .wgpuU32 := by
    rw [targetOf, Nat.add_mul, Nat.add_right_comm]
  have htargetRow : (pairAddress k (linear / layout.rowWords .wgpuU32) + 2 ^ k) *
      layout.rowWords .wgpuU32 < wordLimit32 := by
    rw [targetOf] at hindex
    exact Nat.lt_of_le_of_lt (Nat.le_add_right ..) (Nat.lt_trans hindex hfits)
  have hsourceIndex : pairAddress k (linear / layout.rowWords .wgpuU32) *
      layout.rowWords .wgpuU32 + linear % layout.rowWords .wgpuU32 < wordLimit32 := by
    rw [hsource] at hindex
    exact Nat.lt_of_le_of_lt (Nat.le_add_right ..) (Nat.lt_trans hindex hfits)
  have hsourceRow : pairAddress k (linear / layout.rowWords .wgpuU32) *
      layout.rowWords .wgpuU32 < wordLimit32 :=
    Nat.lt_of_le_of_lt (Nat.le_add_right ..) hsourceIndex
  have htargetIndex : (pairAddress k (linear / layout.rowWords .wgpuU32) + 2 ^ k) *
      layout.rowWords .wgpuU32 + linear % layout.rowWords .wgpuU32 < wordLimit32 :=
    Nat.lt_trans hindex hfits
  rw [pvpPairIndices, stageParams, kernelU32_of_lt (total_lt hfits), Except.ok_bind,
    if_neg (by omega)]
  simp only []
  rw [kernelU32_of_lt hdouble, Except.ok_bind, kernelU32_of_lt (by omega), Except.ok_bind, hblock,
    kernelU32_of_lt (by omega), Except.ok_bind, kernelU32_of_lt (by omega), Except.ok_bind,
    if_neg (by omega), kernelU32_of_lt hsourceRow, Except.ok_bind, kernelU32_of_lt hsourceIndex,
    Except.ok_bind, kernelU32_of_lt htargetRow, Except.ok_bind, kernelU32_of_lt htargetIndex,
    Except.ok_bind, hsource, Nat.add_sub_cancel, ← hsource]
  rfl

/-- An invocation behind the last pair returns. -/
theorem pvpPairIndices_surplus (hfits : Indexable layout)
    (hlinear : layout.addresses / 2 * layout.rowWords .wgpuU32 ≤ linear) :
    pvpPairIndices (stageParams layout k) linear = .ok none := by
  rw [pvpPairIndices, stageParams, kernelU32_of_lt (total_lt hfits), Except.ok_bind, if_pos hlinear]
  rfl

/-! ### Dispatches -/

variable (layout k)

/-- The words of which those written by the invocations that have run are through with the stage. -/
def stagedIn (ran : List ℕ) (f : ℕ → BitVec 32) (i : ℕ) : BitVec 32 :=
  if invocationOf layout k i ∈ ran then wordStage (layout.rowWords .wgpuU32) k f i else f i

variable {layout k} {f : ℕ → BitVec 32} {ran : List ℕ}

private theorem stagedIn_of_not_testBit {i : ℕ}
    (h : (i / layout.rowWords .wgpuU32).testBit k = false) : stagedIn layout k ran f i = f i := by
  rw [stagedIn, wordStage, h]
  simp

private theorem invocationOf_lt {i : ℕ} (hk : k < layout.stages)
    (hi : i < layout.addresses * layout.rowWords .wgpuU32)
    (hbit : (i / layout.rowWords .wgpuU32).testBit k = true) :
    invocationOf layout k i < layout.addresses / 2 * layout.rowWords .wgpuU32 := by
  have haddress : i / layout.rowWords .wgpuU32 < layout.addresses :=
    Nat.div_lt_of_lt_mul (by rwa [Nat.mul_comm])
  have hpair : pairOf k (i / layout.rowWords .wgpuU32) < layout.addresses / 2 := by
    rw [layout.addresses_eq, ← pairAddress_lt_iff hk, pairAddress_pairOf hbit,
      ← layout.addresses_eq]
    exact haddress
  have hword : i % layout.rowWords .wgpuU32 < layout.rowWords .wgpuU32 := word_lt
  calc invocationOf layout k i
      < (pairOf k (i / layout.rowWords .wgpuU32) + 1) * layout.rowWords .wgpuU32 := by
        rw [invocationOf, Nat.add_one_mul]
        omega
    _ ≤ layout.addresses / 2 * layout.rowWords .wgpuU32 := Nat.mul_le_mul_right _ hpair

/-- An invocation that has not run before replaces the word that it writes. -/
private theorem pvpSubsetZetaStage_stagedIn (hfits : Indexable layout) (hk : k < layout.stages)
    (hran : linear ∉ ran) :
    pvpSubsetZetaStage (stageParams layout k)
        (tabulate (layout.addresses * layout.rowWords .wgpuU32) (stagedIn layout k ran f)) linear =
      .ok (tabulate (layout.addresses * layout.rowWords .wgpuU32)
        (stagedIn layout k (linear :: ran) f)) := by
  rcases Nat.lt_or_ge linear (layout.addresses / 2 * layout.rowWords .wgpuU32) with hlt | hge
  · have htarget := targetOf_lt hk hlt
    have hsource : targetOf layout k linear - 2 ^ k * layout.rowWords .wgpuU32 <
        layout.addresses * layout.rowWords .wgpuU32 := Nat.lt_of_le_of_lt (Nat.sub_le ..) htarget
    have hlower : ((targetOf layout k linear - 2 ^ k * layout.rowWords .wgpuU32) /
        layout.rowWords .wgpuU32).testBit k = false := by
      rw [Nat.mul_comm, Nat.sub_mul_div, targetOf_div, Nat.add_sub_cancel]
      exact testBit_pairAddress k _
    have hupper : (targetOf layout k linear / layout.rowWords .wgpuU32).testBit k = true := by
      rw [targetOf_div]
      exact testBit_pairAddress_add k _
    have hkeep : stagedIn layout k ran f (targetOf layout k linear) =
        f (targetOf layout k linear) := by
      rw [stagedIn, invocationOf_targetOf, if_neg hran]
    rw [pvpSubsetZetaStage, pvpPairIndices_stage hfits hk hlt, Except.ok_bind]
    simp only []
    rw [Outcome.index_tabulate htarget, Except.ok_bind, Outcome.index_tabulate hsource,
      Except.ok_bind, Outcome.modifyAt_tabulate htarget, stagedIn_of_not_testBit hlower, hkeep]
    refine congrArg _ (tabulate_congr fun i _ => ?_)
    rcases eq_or_ne i (targetOf layout k linear) with rfl | hne
    · rw [Function.update_self, stagedIn, invocationOf_targetOf, if_pos List.mem_cons_self,
        wordStage, if_pos hupper]
    · rw [Function.update_of_ne hne]
      rcases hbit : (i / layout.rowWords .wgpuU32).testBit k with _ | _
      · rw [stagedIn_of_not_testBit hbit, stagedIn_of_not_testBit hbit]
      · have hother : invocationOf layout k i ≠ linear := by
          rintro rfl
          exact hne (targetOf_invocationOf hbit).symm
        simp only [stagedIn, List.mem_cons, hother, false_or]
  · rw [pvpSubsetZetaStage, pvpPairIndices_surplus hfits hge]
    refine congrArg _ (tabulate_congr fun i hi => ?_)
    rcases hbit : (i / layout.rowWords .wgpuU32).testBit k with _ | _
    · rw [stagedIn_of_not_testBit hbit, stagedIn_of_not_testBit hbit]
    · have hother : invocationOf layout k i ≠ linear :=
        Nat.ne_of_lt (Nat.lt_of_lt_of_le (invocationOf_lt hk hi hbit) hge)
      simp only [stagedIn, List.mem_cons, hother, false_or]

private theorem foldlM_stagedIn (hfits : Indexable layout) (hk : k < layout.stages)
    (order : List ℕ) (horder : (order ++ ran).Nodup) :
    order.foldlM (pvpSubsetZetaStage (stageParams layout k))
        (tabulate (layout.addresses * layout.rowWords .wgpuU32) (stagedIn layout k ran f)) =
      .ok (tabulate (layout.addresses * layout.rowWords .wgpuU32)
        (stagedIn layout k (order.reverse ++ ran) f)) := by
  induction order generalizing ran with
  | nil => rfl
  | cons linear order ih =>
    have hcons := horder
    rw [List.cons_append, List.nodup_cons, List.mem_append, not_or] at hcons
    have hnext : (order ++ linear :: ran).Nodup :=
      (List.perm_middle.nodup_iff).2 horder
    rw [List.foldlM_cons, pvpSubsetZetaStage_stagedIn hfits hk hcons.1.2, Except.ok_bind,
      ih hnext, List.reverse_cons, List.append_assoc]
    rfl

/-- In any order of its invocations, a dispatch is a stage. -/
theorem dispatch_pvpSubsetZetaStage (hfits : Indexable layout) (hk : k < layout.stages)
    {invocations : ℕ}
    (hcount : layout.addresses / 2 * layout.rowWords .wgpuU32 ≤ invocations) {order : List ℕ}
    (horder : order.Perm (List.range invocations)) (f : ℕ → BitVec 32) :
    dispatch (pvpSubsetZetaStage (stageParams layout k)) order
        (tabulate (layout.addresses * layout.rowWords .wgpuU32) f) =
      .ok (tabulate (layout.addresses * layout.rowWords .wgpuU32)
        (wordStage (layout.rowWords .wgpuU32) k f)) := by
  have hnodup : (order ++ []).Nodup := by
    rw [List.append_nil, horder.nodup_iff]
    exact List.nodup_range
  have hstart : stagedIn layout k [] f = f :=
    funext fun _ => if_neg List.not_mem_nil
  have hrun := foldlM_stagedIn (f := f) hfits hk order hnodup
  rw [hstart] at hrun
  rw [dispatch, hrun]
  refine congrArg _ (tabulate_congr fun i hi => ?_)
  rcases hbit : (i / layout.rowWords .wgpuU32).testBit k with _ | _
  · rw [stagedIn_of_not_testBit hbit, wordStage, hbit]
    simp
  · refine if_pos ?_
    rw [List.append_nil, List.mem_reverse, horder.mem_iff, List.mem_range]
    exact Nat.lt_of_lt_of_le (invocationOf_lt hk hi hbit) hcount

/-- No invocation writes a word that another one reads or writes. -/
theorem pvpPairIndices_disjoint (hfits : Indexable layout) (hk : k < layout.stages)
    {linear' source target source' target' : ℕ} (hne : linear ≠ linear')
    (h : pvpPairIndices (stageParams layout k) linear = .ok (some (source, target)))
    (h' : pvpPairIndices (stageParams layout k) linear' = .ok (some (source', target'))) :
    target ≠ target' ∧ target ≠ source' := by
  rcases Nat.lt_or_ge linear (layout.addresses / 2 * layout.rowWords .wgpuU32) with hlt | hge
  · rcases Nat.lt_or_ge linear' (layout.addresses / 2 * layout.rowWords .wgpuU32) with hlt' | hge'
    · rw [pvpPairIndices_stage hfits hk hlt] at h
      rw [pvpPairIndices_stage hfits hk hlt'] at h'
      obtain ⟨rfl, rfl⟩ := Prod.mk.inj (Option.some.inj (Except.ok.inj h))
      obtain ⟨rfl, rfl⟩ := Prod.mk.inj (Option.some.inj (Except.ok.inj h'))
      refine ⟨fun heq => hne ?_, fun heq => ?_⟩
      · have hinvocation : invocationOf layout k (targetOf layout k linear) = linear :=
          invocationOf_targetOf
        rw [← hinvocation, heq, invocationOf_targetOf]
      · have hupper : (targetOf layout k linear / layout.rowWords .wgpuU32).testBit k = true := by
          rw [targetOf_div]
          exact testBit_pairAddress_add k _
        rw [heq, Nat.mul_comm, Nat.sub_mul_div, targetOf_div, Nat.add_sub_cancel,
          testBit_pairAddress] at hupper
        exact Bool.false_ne_true hupper
    · rw [pvpPairIndices_surplus hfits hge'] at h'
      exact nomatch h'
  · rw [pvpPairIndices_surplus hfits hge] at h
    exact nomatch h

end

/-! ### Executions -/

namespace WgpuPvpSessionV1

/-- The session of a bank after a number of executions. -/
def ofBank (limits : WgpuPvpLimits) (bank : PvpWgpuU32V1) (executions : ℕ) : WgpuPvpSessionV1 :=
  ⟨limits, bank.layout, bank.words, executions⟩

variable {limits : WgpuPvpLimits} {bank : PvpWgpuU32V1} {layout : PvpLayoutAdapterV1}

private theorem storageBytes_eq (bank : PvpWgpuU32V1) : bank.layout.storageBytes .wgpuU32 =
    .ok (bank.layout.addresses * bank.layout.rowWords .wgpuU32 * 4) := by
  have hfits : bank.words.length * (32 / 8) ≤ isizeMax := bank.fits
  rw [bank.length_words] at hfits
  rw [PvpLayoutAdapterV1.storageBytes, PvpLayoutAdapterV1.storageWords_of_lt bank.gates_fit,
    Except.ok_bind, Outcome.okOr_eq_ok_iff]
  exact checkedMul_of_lt (Nat.lt_of_le_of_lt hfits (by decide))

/-- The size checks of a session. -/
theorem new_eq_ok_iff {session : WgpuPvpSessionV1} : new limits bank = .ok session ↔
    bank.layout.addresses * bank.layout.rowWords .wgpuU32 * 4 ≤ limits.maxBufferSize ∧
      bank.layout.addresses * bank.layout.rowWords .wgpuU32 * 4 ≤
        limits.maxStorageBufferBindingSize ∧ ofBank limits bank 0 = session := by
  rw [new, storageBytes_eq]
  simp only [Outcome.wrap, Except.ok_bind, Except.bind_eq_ok_iff, Outcome.require_eq_ok_iff,
    Except.pure_eq_ok_iff]
  constructor
  · rintro ⟨_, hbuffer, _, hbinding, hsession⟩
    exact ⟨hbuffer, hbinding, hsession⟩
  · rintro ⟨hbuffer, hbinding, hsession⟩
    exact ⟨⟨⟩, hbuffer, ⟨⟩, hbinding, hsession⟩

private theorem indexable_of_new {session : WgpuPvpSessionV1}
    (h : new limits bank = .ok session) : Indexable bank.layout := by
  have hbinding := (new_eq_ok_iff.1 h).2.1
  have hlimit := limits.binding_lt
  rw [Indexable]
  omega

private theorem recordStages_eq (hfits : Indexable layout) {k count : ℕ}
    (hk : k + count = layout.stages) {fuel : ℕ} (hfuel : count < fuel) :
    recordStages layout.addresses (layout.rowWords .wgpuU32) (layout.addresses / 2) fuel (2 ^ k) =
      .ok ((List.range' k count).map (stageParams layout)) := by
  have hrow : 0 < layout.rowWords .wgpuU32 := layout.rowWords_pos
  have haddresses : layout.addresses < wordLimit32 :=
    Nat.lt_of_le_of_lt (Nat.le_mul_of_pos_right _ hrow) hfits
  induction count generalizing k fuel with
  | zero =>
    obtain ⟨fuel, rfl⟩ := Nat.exists_eq_succ_of_ne_zero (Nat.ne_of_gt hfuel)
    rw [recordStages, if_neg]
    · rfl
    · rw [layout.addresses_eq, ← hk, Nat.add_zero]
      exact Nat.lt_irrefl _
  | succ count ih =>
    obtain ⟨fuel, rfl⟩ := Nat.exists_eq_succ_of_ne_zero (Nat.ne_of_gt (Nat.zero_lt_of_lt hfuel))
    have hlt : 2 ^ k < layout.addresses := by
      rw [layout.addresses_eq]
      exact Nat.pow_lt_pow_right (by decide) (by omega)
    have hnext : 2 ^ k * 2 < wordLimit32 := by
      refine Nat.lt_of_le_of_lt ?_ haddresses
      rw [layout.addresses_eq, ← Nat.pow_succ]
      exact Nat.pow_le_pow_right (by decide) (by omega)
    rw [recordStages, if_pos hlt, if_pos hnext, ← Nat.pow_succ]
    change (recordStages _ _ _ fuel (2 ^ (k + 1)) >>= fun rest => pure (_ :: rest)) = _
    rw [ih (by omega) (by omega)]
    rfl

private theorem submit_stages (hfits : Indexable layout) (scheduler : Scheduler) {workgroups : ℕ}
    (hgroups : layout.addresses / 2 * layout.rowWords .wgpuU32 ≤ workgroups * pvpWorkgroupSize)
    {f : ℕ → BitVec 32} {k count : ℕ} (hk : k + count = layout.stages) (stage : ℕ) :
    submit scheduler workgroups stage ((List.range' k count).map (stageParams layout))
        (tabulate (layout.addresses * layout.rowWords .wgpuU32)
          (wordTransform (layout.rowWords .wgpuU32) k f)) =
      .ok (tabulate (layout.addresses * layout.rowWords .wgpuU32)
        (wordTransform (layout.rowWords .wgpuU32) layout.stages f)) := by
  induction count generalizing k stage with
  | zero =>
    obtain rfl : k = layout.stages := hk
    rfl
  | succ count ih =>
    rw [List.range'_succ, List.map_cons, submit,
      dispatch_pvpSubsetZetaStage hfits (by omega) hgroups (scheduler.perm _ _), Except.ok_bind]
    exact ih (by omega) (stage + 1)

/-- The workgroups of a dispatch. -/
def workgroups (layout : PvpLayoutAdapterV1) : ℕ :=
  (layout.addresses / 2 * layout.rowWords .wgpuU32 + (pvpWorkgroupSize - 1)) / pvpWorkgroupSize

theorem invocations_le (layout : PvpLayoutAdapterV1) :
    layout.addresses / 2 * layout.rowWords .wgpuU32 ≤ workgroups layout * pvpWorkgroupSize := by
  rw [workgroups, pvpWorkgroupSize]
  omega

/-- An execution ends in the transform of the bank, in whatever order the invocations run. -/
theorem run_executeSubsetZeta (hfits : Indexable bank.layout)
    (hgroups : workgroups bank.layout ≤ limits.maxComputeWorkgroupsPerDimension)
    (scheduler : Scheduler) {executions : ℕ} (hcount : executions + 1 < wordLimit) :
    (executeSubsetZeta scheduler).run (ofBank limits bank executions) =
      (.ok
        { stages := bank.layout.stages
          logicalGateXorOps := bank.layout.addresses / 2 * bank.layout.stages * bank.layout.gates
          packedU32Updates :=
            bank.layout.addresses / 2 * bank.layout.stages * bank.layout.rowWords .wgpuU32
          logicalDispatches := bank.layout.stages
          workgroupsPerStage := workgroups bank.layout
          stateWords := bank.layout.addresses * bank.layout.rowWords .wgpuU32
          stateBytes := bank.layout.addresses * bank.layout.rowWords .wgpuU32 * 4
          scratchStateWords := 0
          executionIndex := executions + 1 }, ofBank limits bank.zeta (executions + 1)) := by
  have hrow : 0 < bank.layout.rowWords .wgpuU32 := bank.layout.rowWords_pos
  have haddresses : bank.layout.addresses < wordLimit32 :=
    Nat.lt_of_le_of_lt (Nat.le_mul_of_pos_right _ hrow) hfits
  have hpositive : 0 < bank.layout.addresses := by
    rw [bank.layout.addresses_eq]
    exact Nat.two_pow_pos _
  have hwords : bank.layout.rowWords .wgpuU32 < wordLimit32 :=
    Nat.lt_of_le_of_lt (Nat.le_mul_of_pos_left _ hpositive) hfits
  have hstages : bank.layout.stages < 33 := by
    rw [bank.layout.addresses_eq] at haddresses
    have hexponent : bank.layout.stages < 32 := (Nat.pow_lt_pow_iff_right (by decide)).1 haddresses
    omega
  have hrecord := recordStages_eq hfits (Nat.zero_add bank.layout.stages) hstages
  rw [Nat.pow_zero] at hrecord
  have hsubmit := submit_stages (f := (bank.words.getD · 0)) hfits scheduler
    (invocations_le bank.layout) (Nat.zero_add bank.layout.stages) 0
  rw [wordTransform, ← bank.length_words, tabulate_getD, bank.length_words] at hsubmit
  have hlayout : (ofBank limits bank executions).layout = bank.layout := rfl
  have hlimits : (ofBank limits bank executions).limits = limits := rfl
  have hstate : (ofBank limits bank executions).state = bank.words := rfl
  have hexecutions : checkedAdd executions 1 = some (executions + 1) := checkedAdd_of_lt hcount
  rw [workgroups] at hgroups hsubmit
  rw [executeSubsetZeta, Fallible.run_bind_ok (Fallible.run_get _)]
  simp only [hlayout, hlimits, hstate, Outcome.require_of _ haddresses, Fallible.ofExcept_ok_bind,
    PvpLayoutAdapterV1.wordsPerAddress_of_lt bank.gates_fit, Outcome.wrap,
    Outcome.require_of _ hwords, Outcome.require_of _ (total_lt hfits), hrecord,
    Outcome.require_of _ hgroups, hsubmit]
  rw [Fallible.run_bind_ok (Fallible.run_modify _ _)]
  simp only [ofBank, hexecutions, Outcome.okOr, Fallible.ofExcept_ok_bind, storageBytes_eq,
    PvpLayoutAdapterV1.storageWords_of_lt bank.gates_fit]
  rfl

/-- A bank that passes the size checks has a projection to 64-bit words. -/
private theorem exists_toCpuU64 (hfits : Indexable bank.layout) :
    ∃ cpuBank, bank.toCpuU64 = .ok cpuBank := by
  have hrow : 0 < bank.layout.rowWords .wgpuU32 := bank.layout.rowWords_pos
  have hpositive : 0 < bank.layout.addresses := by
    rw [bank.layout.addresses_eq]
    exact Nat.two_pow_pos _
  have hwords : bank.layout.rowWords .wgpuU32 < wordLimit32 :=
    Nat.lt_of_le_of_lt (Nat.le_mul_of_pos_left _ hpositive) hfits
  refine bank.toCpuU64_spec.1.2 ⟨?_, ?_⟩
  · simp only [PvpLayoutAdapterV1.rowWords, PvpPhysicalWordV1.bits, wordLimit32] at hwords
    rw [wordLimit]
    omega
  · have hle : bank.layout.rowWords .cpuU64 ≤ bank.layout.rowWords .wgpuU32 := by
      have hcpu := bank.layout.rowWords_cpu_le
      omega
    calc bank.layout.addresses * bank.layout.rowWords .cpuU64 * 8
        ≤ bank.layout.addresses * bank.layout.rowWords .wgpuU32 * 8 :=
          Nat.mul_le_mul_right _ (Nat.mul_le_mul_left _ hle)
      _ ≤ wordLimit32 * 8 := Nat.mul_le_mul_right _ (Nat.le_of_lt hfits)
      _ ≤ isizeMax := by decide

private theorem snapshot_ofBank (bank : PvpWgpuU32V1) (executions : ℕ) :
    (ofBank limits bank executions).snapshot = .ok bank := by
  have hlength : bank.words.length * 4 =
      bank.layout.addresses * bank.layout.rowWords .wgpuU32 * 4 := by rw [bank.length_words]
  rw [snapshot, Except.bind_eq_ok_iff]
  refine ⟨_, Outcome.wrap_eq_ok_iff.2 (storageBytes_eq bank), ?_⟩
  rw [Except.bind_eq_ok_iff]
  exact ⟨⟨⟩, Outcome.require_eq_ok_iff.2 hlength,
    Outcome.wrap_eq_ok_iff.2 (PvpBank.new_eq_ok bank.valid bank.fits)⟩

end WgpuPvpSessionV1

/-- For a bank that passes the size checks, and in each stage: no invocation writes a word that
another one reads or writes, the invocations behind the last pair write nothing, and a dispatch
returns, so that no index arithmetic wraps, with words that do not depend on the order of the
invocations. The execution ends in the projection of the bank in which the execution of the CPU ends
from the corresponding 64-bit bank. -/
theorem wgpuPvp_executeSubsetZeta_correct {limits : WgpuPvpLimits} {bank : PvpWgpuU32V1}
    {session : WgpuPvpSessionV1} (hnew : WgpuPvpSessionV1.new limits bank = .ok session)
    (hgroups : WgpuPvpSessionV1.workgroups bank.layout ≤ limits.maxComputeWorkgroupsPerDimension) :
    (∀ k < bank.layout.stages,
      (∀ linear linear' source target source' target', linear ≠ linear' →
        pvpPairIndices (stageParams bank.layout k) linear = .ok (some (source, target)) →
        pvpPairIndices (stageParams bank.layout k) linear' = .ok (some (source', target')) →
        target ≠ target' ∧ target ≠ source') ∧
      (∀ linear, bank.layout.addresses / 2 * bank.layout.rowWords .wgpuU32 ≤ linear →
        ∀ words, pvpSubsetZetaStage (stageParams bank.layout k) words linear = .ok words) ∧
      ∀ words : List (BitVec 32), words.length = bank.words.length →
        ∃ words', ∀ order : List ℕ,
          order.Perm (List.range (WgpuPvpSessionV1.workgroups bank.layout * pvpWorkgroupSize)) →
          dispatch (pvpSubsetZetaStage (stageParams bank.layout k)) order words = .ok words') ∧
    ∃ cpuBank, bank.toCpuU64 = .ok cpuBank ∧ ∀ scheduler,
      ∃ stats session' result cpuStats cpuSession cpuResult,
        (WgpuPvpSessionV1.executeSubsetZeta scheduler).run session = (.ok stats, session') ∧
        session'.snapshot = .ok result ∧
        CpuPvpSessionV1.executeSubsetZeta.run (.new cpuBank) = (.ok cpuStats, cpuSession) ∧
        cpuSession.snapshot = .ok cpuResult ∧ cpuResult.toWgpuU32 = .ok result := by
  have hfits := WgpuPvpSessionV1.indexable_of_new hnew
  obtain rfl := (WgpuPvpSessionV1.new_eq_ok_iff.1 hnew).2.2
  refine ⟨fun k hk => ⟨fun linear linear' source target source' target' hne h h' =>
    pvpPairIndices_disjoint hfits hk hne h h', fun linear hlinear words => ?_,
    fun words hlength => ?_⟩, ?_⟩
  · rw [pvpSubsetZetaStage, pvpPairIndices_surplus hfits hlinear]
    rfl
  · rw [← tabulate_getD words 0, hlength, bank.length_words]
    exact ⟨_, fun order horder => dispatch_pvpSubsetZetaStage hfits hk
      (WgpuPvpSessionV1.invocations_le bank.layout) horder _⟩
  · obtain ⟨cpuBank, hcpu⟩ := WgpuPvpSessionV1.exists_toCpuU64 hfits
    refine ⟨cpuBank, hcpu, fun scheduler => ⟨_, _, bank.zeta, _, _, cpuBank.zeta,
      WgpuPvpSessionV1.run_executeSubsetZeta hfits hgroups scheduler (by decide),
      WgpuPvpSessionV1.snapshot_ofBank _ _,
      CpuPvpSessionV1.run_executeSubsetZeta cpuBank (by decide : 0 + 1 < wordLimit),
      CpuPvpSessionV1.snapshot_ofBank _,
      PvpBank.toWgpuU32_zeta (PvpBank.toWgpuU32_of_toCpuU64 hcpu)⟩⟩

/-- Two addresses with one gate. -/
def pairBank : PvpWgpuU32V1 :=
  ⟨⟨2, 1, ⟨1, rfl⟩, by decide, by decide⟩, [1#32, 0#32], rfl, by decide⟩

/-- Limits of a device. -/
def webGpuLimits : WgpuPvpLimits := ⟨2 ^ 28, 2 ^ 27, 65535, by decide⟩

theorem wgpuPvp_executeSubsetZeta_correct_pairBank :
    ∃ stats session' result,
      (WgpuPvpSessionV1.executeSubsetZeta .ascending).run
        ⟨webGpuLimits, pairBank.layout, [1#32, 0#32], 0⟩ = (.ok stats, session') ∧
      session'.snapshot = .ok result := by
  have hnew : WgpuPvpSessionV1.new webGpuLimits pairBank =
      .ok ⟨webGpuLimits, pairBank.layout, [1#32, 0#32], 0⟩ := rfl
  obtain ⟨_, _, hrun⟩ := (wgpuPvp_executeSubsetZeta_correct hnew (by decide)).2
  obtain ⟨stats, session', result, _, _, _, hrun, hsnapshot, -⟩ := hrun .ascending
  exact ⟨stats, session', result, hrun, hsnapshot⟩

end NNIS
