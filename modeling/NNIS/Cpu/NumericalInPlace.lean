import NNIS.Cpu.NumericalSpec

/-!
# The kernels write their destination at the end

The operations of `nnis-cpu/src/numerical.rs` on a destination that is part of the state. An
operation that fails leaves its destination as it was, and one that succeeds leaves the reference
result there.

## Main definitions

* `CpuF32Call` — an operation and its operands; `CpuF32Call.meaning` — the reference result.
* `CpuF32KernelsV1.perform` — the operations on the state.
* `CpuF32KernelsV1.apply` — the operation that returns the written destination.

## Main results

* `CpuF32KernelsV1.perform_stages` — an operation that fails has not written its destination.
* `CpuF32KernelsV1.apply_spec` — every operation returns the reference result or an error.
* `CpuF32KernelsV1.perform_spec` — every operation is atomic and exact.
-/

set_option autoImplicit false

namespace NNIS

open Outcome CpuF32

/-- An operation of the kernels and its operands. -/
inductive CpuF32Call
  | binary (operation : CpuF32BinaryOp) (left right : CpuBuffer)
  | relu (input : CpuBuffer)
  | sum (input : CpuBuffer)
  | projectKn (input weights : CpuBuffer) (k n : ℕ)
  | gather (input : CpuBuffer) (indices : List ℕ)
  | scatterAdd (source : CpuBuffer) (indices : List ℕ)

namespace CpuF32Call

/-- The reference result on the words of the operands and the old words of the destination. -/
def meaning (old : List F32) : CpuF32Call → List F32
  | binary operation left right => List.zipWith operation.apply left.values right.values
  | relu input => input.values.map Tensor.relu
  | sum input => [Tensor.sum input.values]
  | projectKn input weights _ n => (List.range n).map (Tensor.column input.values weights.values n)
  | gather input indices => Tensor.gather input.values indices
  | scatterAdd source indices => Tensor.scatterAdd old source.values indices

end CpuF32Call

namespace CpuF32KernelsV1

/-- Perform an operation on the destination. -/
def perform (self : CpuF32KernelsV1) : CpuF32Call → DestM CpuF32ReportV1
  | .binary operation left right => self.binaryInto operation left right
  | .relu input => self.reluInto input
  | .sum input => self.sumInto input
  | .projectKn input weights k n => self.projectKnInto input weights k n
  | .gather input indices => self.gatherInto input indices
  | .scatterAdd source indices => self.scatterAddInto source indices

/-- The written destination of an operation. -/
def apply (self : CpuF32KernelsV1) (output : CpuBuffer) (call : CpuF32Call) :
    HostM (CpuBuffer × CpuF32ReportV1) := (self.perform call).returning output

/-! ### The destination is written at the end -/

open Fallible (Stages)

variable (self : CpuF32KernelsV1) (s : Allocator × CpuBuffer)

theorem commitInto_stages (scratch : List UInt8) (capacity : ℕ) (operation : CpuF32Operation) :
    Stages s (commitInto scratch capacity operation) := by
  refine Stages.second_bind ?_
  by_cases h : scratch.length = s.2.bytes.length
  · rw [if_pos h]
    exact fun _ _ herror => absurd (congrArg Prod.fst herror) nofun
  · rw [if_neg h]
    exact fun _ _ herror => by rw [← (Prod.mk.inj herror).2]

theorem evaluateInto_stages (values : ℕ) (operation : CpuF32Operation)
    (compute : ℕ → Outcome PortableError F32) :
    Stages s (self.evaluateInto values operation compute) :=
  Stages.second_bind <| Stages.ofExcept_bind fun _ _ => Stages.onFirst_bind fun capacity s' =>
    Stages.ofExcept_bind fun scratch _ => commitInto_stages (s', s.2) scratch capacity operation

theorem scatterAddInto_stages (source : CpuBuffer) (indices : List ℕ) :
    Stages s (self.scatterAddInto source indices) :=
  Stages.ofExcept_bind fun _ _ => Stages.ofExcept_bind fun _ _ => Stages.second_bind <|
    Stages.ofExcept_bind fun _ _ => Stages.ofExcept_bind fun _ _ =>
      Stages.onFirst_bind fun capacity s' => Stages.ofExcept_bind fun scratch _ =>
        commitInto_stages (s', s.2) scratch capacity .scatterAdd

/-- An operation that fails leaves its destination as it was. -/
theorem perform_stages (call : CpuF32Call) : Stages s (self.perform call) := by
  cases call with
  | binary operation left right =>
    exact Stages.ofExcept_bind fun _ _ => Stages.ofExcept_bind fun _ _ =>
      Stages.ofExcept_bind fun _ _ => self.evaluateInto_stages s _ _ _
  | relu input => exact Stages.ofExcept_bind fun _ _ => self.evaluateInto_stages s _ _ _
  | sum input => exact Stages.ofExcept_bind fun _ _ => self.evaluateInto_stages s _ _ _
  | projectKn input weights k n =>
    exact Stages.ofExcept_bind fun _ _ => Stages.ofExcept_bind fun _ _ =>
      Stages.ofExcept_bind fun _ _ => Stages.ofExcept_bind fun _ _ =>
      Stages.ofExcept_bind fun _ _ => Stages.ofExcept_bind fun _ _ =>
        self.evaluateInto_stages s _ _ _
  | gather input indices =>
    exact Stages.ofExcept_bind fun _ _ => Stages.ofExcept_bind fun _ _ =>
      self.evaluateInto_stages s _ _ _
  | scatterAdd source indices => exact self.scatterAddInto_stages s source indices

end CpuF32KernelsV1

/-! ### What the checks establish -/

namespace CpuF32

theorem wordCount_safe (buffer : CpuBuffer) : Safe (wordCount buffer) :=
  (Safe.require _ _).bind fun _ _ => (Safe.require _ _).bind fun _ _ => Safe.pure _

theorem room_of_wordCount {buffer : CpuBuffer} {n : ℕ} (h : wordCount buffer = .ok n) :
    buffer.Room n := by
  obtain ⟨_, husage, h⟩ := Except.bind_eq_ok_iff.1 h
  obtain ⟨_, hlength, h⟩ := Except.bind_eq_ok_iff.1 h
  obtain rfl := Except.pure_eq_ok_iff.1 h
  obtain ⟨hne, hmod⟩ := require_eq_ok_iff.1 hlength
  have hpos : 0 < buffer.bytes.length := by
    rw [List.length_pos_iff]
    exact List.isEmpty_eq_false_iff.1 hne
  refine ⟨require_eq_ok_iff.1 husage, ?_, ?_⟩
  all_goals
    rw [CpuBuffer.len] at *
    omega

theorem valueAt_of_room {buffer : CpuBuffer} {n i : ℕ} (h : buffer.Room n) (hi : i < n) :
    ∃ x, valueAt buffer.bytes i = .ok x ∧ buffer.values[i]? = some x := by
  have hlength : i < buffer.values.length := by
    rw [CpuBuffer.length_values, CpuBuffer.len, h.length_bytes]
    omega
  refine ⟨buffer.values[i], ?_, List.getElem?_eq_getElem hlength⟩
  rw [valueAt_eq_index]
  exact index_of_lt hlength

theorem Input.new_safe (buffer : CpuBuffer) : Safe (Input.new buffer) := by
  refine (wordCount_safe buffer).bind fun n hn => Safe.bind ?_ fun _ _ => Safe.pure _
  intro hpanic
  obtain ⟨i, hi, hpanic⟩ := exists_of_forM_eq_error hpanic
  obtain ⟨x, hx, -⟩ := valueAt_of_room (room_of_wordCount hn) (List.mem_range.1 hi)
  rw [hx, Except.ok_bind] at hpanic
  exact (Safe.require _ _).bind (fun _ _ => Safe.pure _) |>.bind (fun _ _ => Safe.pure _) <| hpanic

/-- A checked operand stores its words. -/
theorem stores_of_new {buffer : CpuBuffer} {input : Input} (h : Input.new buffer = .ok input) :
    buffer.Stores buffer.values ∧ input = ⟨buffer, buffer.values.length⟩ := by
  obtain ⟨n, hn, h⟩ := Except.bind_eq_ok_iff.1 h
  obtain ⟨_, hchecks, h⟩ := Except.bind_eq_ok_iff.1 h
  obtain rfl := Except.pure_eq_ok_iff.1 h
  have hroom := room_of_wordCount hn
  have hlength : buffer.values.length = n := by
    rw [CpuBuffer.length_values, CpuBuffer.len, hroom.length_bytes, Nat.mul_div_cancel n (by omega)]
  refine ⟨⟨hlength ▸ hroom, rfl, fun x hx => ?_⟩, by rw [hlength]⟩
  obtain ⟨i, hi, rfl⟩ := List.getElem_of_mem hx
  have hcheck := forM_eq_ok_iff.1 hchecks i (List.mem_range.2 (hlength ▸ hi))
  obtain ⟨y, hy, hget⟩ := valueAt_of_room hroom (hlength ▸ hi)
  obtain rfl : buffer.values[i] = y :=
    Option.some.inj ((List.getElem?_eq_getElem hi).symm.trans hget)
  rw [hy, Except.ok_bind] at hcheck
  obtain ⟨_, hfinite, -⟩ := Except.bind_eq_ok_iff.1 hcheck
  exact (finite_eq_ok_iff.1 hfinite).1

theorem ne_panic_of_kernelError {e : Stop PortableError} (h : KernelError e) : e ≠ .panic := by
  rcases h with ⟨_, rfl⟩ | rfl <;> nofun

end CpuF32

namespace CpuF32KernelsV1

variable (kernels : CpuF32KernelsV1) {output : CpuBuffer}

/-- A check that does not panic, before the rest of an operation. -/
theorem check_bind {α : Type} {r : Outcome PortableError α} (hr : Safe r)
    {f : α → DestM CpuF32ReportV1} {Q : CpuBuffer × CpuF32ReportV1 → Prop}
    (h : ∀ a, r = .ok a → Fallible.Spec (fun _ => True) ((f a).returning output) (fun b _ => Q b)
      fun e _ => e ≠ .panic) :
    Fallible.Spec (fun _ => True) ((.ofExcept r >>= f : DestM CpuF32ReportV1).returning output)
      (fun b _ => Q b) fun e _ => e ≠ .panic := by
  rw [Fallible.returning_ofExcept_bind]
  cases r with
  | error e => exact fun s _ he => hr (by rw [he])
  | ok a => exact h a rfl

/-- Without room for the values, or scratch memory for them, nothing is returned. -/
theorem evaluate_refuses {n : ℕ} (h : ¬ (output.Room n ∧ n * 4 ≤ kernels.maxScratchBytes))
    (operation : CpuF32Operation) (compute : ℕ → Outcome PortableError F32)
    (Q : CpuBuffer × CpuF32ReportV1 → Prop) :
    Fallible.Spec (fun _ => True) (kernels.evaluate output n operation compute) (fun a _ => Q a)
      fun e _ => e ≠ .panic := by
  rw [evaluate, evaluateInto, Fallible.returning_second_bind]
  refine check_bind ((wordCount_safe output).bind fun _ _ => Safe.require _ _) fun _ hcount => ?_
  obtain ⟨m, hm, hequal⟩ := Except.bind_eq_ok_iff.1 hcount
  obtain rfl := require_eq_ok_iff.1 hequal
  have hroom := room_of_wordCount hm
  have hover : ¬ output.len ≤ kernels.maxScratchBytes := by
    rw [CpuBuffer.len, hroom.length_bytes]
    exact fun hle => h ⟨hroom, hle⟩
  rw [Fallible.returning_onFirst_bind, scratch, wordCount_of_room hroom, require_of_not _ hover]
  exact fun _ _ h => by cases h

/-- Every operation returns a destination that stores the reference result, or an error. -/
theorem apply_spec (call : CpuF32Call) :
    Fallible.Spec (fun _ => True) (kernels.apply output call)
      (fun written _ => written.1.Stores (call.meaning output.values)) fun e _ => e ≠ .panic := by
  have hkernel : ∀ e (_ : Allocator), KernelError e → e ≠ .panic := fun e _ h =>
    ne_panic_of_kernelError h
  cases call with
  | binary operation left right =>
    refine check_bind (Input.new_safe left) fun _ hl =>
      check_bind (Input.new_safe right) fun _ hr =>
      check_bind (Safe.require _ _) fun _ hequal => ?_
    obtain ⟨hleft, rfl⟩ := stores_of_new hl
    obtain ⟨hright, rfl⟩ := stores_of_new hr
    have hlength : left.values.length = right.values.length := require_eq_ok_iff.1 hequal
    by_cases h : output.Room left.values.length ∧
      left.values.length * 4 ≤ kernels.maxScratchBytes
    · have hspec := kernels.binary_spec operation hleft hright hlength h.1 h.2
      simp only [binary, binaryInto, hl, hr, Fallible.ofExcept_ok_bind, Input.len,
        requireEqual_of hlength] at hspec
      exact hspec.conseq (fun _ h => h) (fun _ _ h => h) hkernel
    · exact kernels.evaluate_refuses h _ _ _
  | relu input =>
    refine check_bind (Input.new_safe input) fun _ hi => ?_
    obtain ⟨hinput, rfl⟩ := stores_of_new hi
    by_cases h : output.Room input.values.length ∧
      input.values.length * 4 ≤ kernels.maxScratchBytes
    · have hspec := kernels.relu_spec hinput h.1 h.2
      simp only [relu, reluInto, hi, Fallible.ofExcept_ok_bind] at hspec
      exact hspec.conseq (fun _ h => h) (fun _ _ h => h) hkernel
    · exact kernels.evaluate_refuses h _ _ _
  | sum input =>
    refine check_bind (Input.new_safe input) fun _ hi => ?_
    obtain ⟨hinput, rfl⟩ := stores_of_new hi
    by_cases h : output.Room 1 ∧ 1 * 4 ≤ kernels.maxScratchBytes
    · have hspec := kernels.sum_spec hinput h.1 h.2
      simp only [sum, sumInto, hi, Fallible.ofExcept_ok_bind] at hspec
      exact hspec.conseq (fun _ h => h) (fun _ _ h => h) hkernel
    · exact kernels.evaluate_refuses h _ _ _
  | projectKn input weights k n =>
    refine check_bind (Safe.require _ _) fun _ hdims =>
      check_bind (Safe.okOr _ _) fun elements hmul =>
      check_bind (Input.new_safe input) fun _ hi => check_bind (Input.new_safe weights) fun _ hw =>
      check_bind (Safe.require _ _) fun _ hk => check_bind (Safe.require _ _) fun _ helements => ?_
    obtain ⟨hinput, rfl⟩ := stores_of_new hi
    obtain ⟨hweights, rfl⟩ := stores_of_new hw
    obtain rfl : input.values.length = k := require_eq_ok_iff.1 hk
    obtain ⟨hlength, hlt⟩ := checkedMul_eq_some_iff.1 (okOr_eq_ok_iff.1 hmul)
    have hsize : weights.values.length = input.values.length * n :=
      (require_eq_ok_iff.1 helements).trans hlength.symm
    by_cases h : output.Room n ∧ n * 4 ≤ kernels.maxScratchBytes
    · have hspec := kernels.projectKn_spec hinput hweights hsize (hsize ▸ hlength ▸ hlt) h.1 h.2
      have hcolumns : weights.values.length / input.values.length = n := by
        rw [hsize, Nat.mul_div_cancel_left n hinput.pos]
      simp only [projectKn, projectKnInto, hdims, hmul, hi, hw, Fallible.ofExcept_ok_bind,
        Input.len, requireEqual_of (hsize.trans hlength), requireEqual_of rfl,
        Tensor.projectKn, hcolumns]
        at hspec
      exact hspec.conseq (fun _ h => h) (fun _ _ h => h) hkernel
    · exact kernels.evaluate_refuses h _ _ _
  | gather input indices =>
    refine check_bind (Input.new_safe input) fun _ hi =>
      check_bind (Safe.require _ _) fun _ hv => ?_
    obtain ⟨hinput, rfl⟩ := stores_of_new hi
    obtain ⟨hne, hrange⟩ : indices ≠ [] ∧ ∀ i ∈ indices, i < input.values.length :=
      require_eq_ok_iff.1 hv
    by_cases h : output.Room indices.length ∧ indices.length * 4 ≤ kernels.maxScratchBytes
    · have hspec := kernels.gather_spec hinput hne hrange h.1 h.2
      simp only [gather, gatherInto, hi, Fallible.ofExcept_ok_bind, Input.len,
        validateIndices_of hne hrange] at hspec
      exact hspec.conseq (fun _ h => h) (fun _ _ h => h) hkernel
    · exact kernels.evaluate_refuses h _ _ _
  | scatterAdd source indices =>
    refine check_bind (Input.new_safe source) fun _ hs =>
      check_bind (Safe.require _ _) fun _ hequal => ?_
    rw [Fallible.returning_second_bind]
    refine check_bind (Input.new_safe output) fun _ ho =>
      check_bind (Safe.require _ _) fun _ hv => ?_
    obtain ⟨hsource, rfl⟩ := stores_of_new hs
    obtain ⟨houtput, rfl⟩ := stores_of_new ho
    obtain ⟨hne, hrange⟩ : indices ≠ [] ∧ ∀ i ∈ indices, i < output.values.length :=
      require_eq_ok_iff.1 hv
    have hlength : source.values.length = indices.length := require_eq_ok_iff.1 hequal
    by_cases h : output.values.length * 4 ≤ kernels.maxScratchBytes
    · have hspec := kernels.scatterAdd_spec hsource houtput hlength hrange h
      simp only [scatterAdd, scatterAddInto, hs, Fallible.returning_second_bind, ho,
        Fallible.ofExcept_ok_bind, Input.len, requireEqual_of hlength,
        validateIndices_of hne hrange] at hspec
      exact hspec.conseq (fun _ h => h) (fun _ _ h => h) hkernel
    · have hover : ¬ output.len ≤ kernels.maxScratchBytes := by
        rwa [CpuBuffer.len, houtput.length_bytes]
      rw [Fallible.returning_onFirst_bind, scratch, wordCount_of_room houtput.toRoom, require,
        if_neg hover]
      exact fun _ _ h => by cases h

/-! ### Atomic and exact -/

theorem scatterAdd_untouched (base source : List F32) (indices : List ℕ) {j : ℕ}
    (h : j ∉ indices) : (Tensor.scatterAdd base source indices)[j]? = base[j]? := by
  induction indices generalizing base source with
  | nil => rfl
  | cons d indices ih =>
    obtain ⟨hd, hrest⟩ := not_or.1 (mt List.mem_cons.2 h)
    cases source with
    | nil => rfl
    | cons x source =>
      rw [Tensor.scatterAdd, List.zip_cons_cons, List.foldl_cons]
      exact (ih _ _ hrest).trans (List.getElem?_modify_ne _ _ (Ne.symm hd))

/-- An operation that fails leaves the destination unchanged and does not panic. One that succeeds
leaves the reference result there, and a scatter keeps every word whose index is not listed. -/
theorem perform_spec (call : CpuF32Call) (s : Allocator × CpuBuffer) :
    Fallible.Post
      (fun _ t => t.2.Stores (call.meaning s.2.values) ∧
        ∀ source indices, call = .scatterAdd source indices →
          ∀ j ∉ indices, t.2.values[j]? = s.2.values[j]?)
      (fun e t => e ≠ .panic ∧ t.2 = s.2) ((kernels.perform call).run s) := by
  have hspec := (kernels.perform_stages s call).post (kernels.apply_spec call)
  refine Fallible.Post.imp (fun _ t hstores => ⟨hstores, ?_⟩) (fun _ _ h => h) hspec
  rintro source indices rfl j hj
  rw [hstores.values_eq]
  exact scatterAdd_untouched _ _ _ hj

end CpuF32KernelsV1

end NNIS
