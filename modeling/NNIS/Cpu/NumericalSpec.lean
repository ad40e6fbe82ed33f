import NNIS.Core.Graph
import NNIS.Cpu.Numerical

/-!
# The kernels compute the reference operations

On buffers that store finite values and have the right lengths, every kernel returns the reference
result, unless an intermediate value is not finite or the allocator refuses the scratch memory.

## Main definitions

* `CpuBuffer.Stores` — a buffer that holds finite words and may be read by kernels.
* `CpuBuffer.Room` — a buffer that may be written by a kernel.
* `CpuF32.Meets` — the computation gives a value unless an intermediate is not finite.
* `CpuF32.KernelError`.

## Main results

* `CpuF32KernelsV1.binary_spec`, `CpuF32KernelsV1.relu_spec`, `CpuF32KernelsV1.sum_spec`,
  `CpuF32KernelsV1.projectKn_spec`, `CpuF32KernelsV1.gather_spec`,
  `CpuF32KernelsV1.scatterAdd_spec`.
-/

set_option autoImplicit false

namespace NNIS

open Outcome

/-- The buffer may be written by a kernel that computes `n` words. -/
structure CpuBuffer.Room (buffer : CpuBuffer) (n : ℕ) : Prop where
  storage : buffer.descriptor.usages.contains .storage = true
  length_bytes : buffer.bytes.length = n * 4
  pos : 0 < n

/-- The buffer holds the given words, all of them finite, and may be read by a kernel. -/
structure CpuBuffer.Stores (buffer : CpuBuffer) (values : List F32) : Prop
    extends buffer.Room values.length where
  values_eq : buffer.values = values
  finite : ∀ x ∈ values, x.isFinite = true

namespace CpuF32

/-! ### Computations that fail only on values that are not finite -/

/-- The computation gives the value, unless an intermediate is not finite. -/
def Meets {α : Type} (x : Outcome PortableError α) (a : α) : Prop :=
  x = .ok a ∨ x = .error (.error nonFinite)

namespace Meets

variable {α β : Type}

theorem pure (a : α) : Meets (Pure.pure a) a := .inl rfl

theorem finite (x : F32) : Meets (CpuF32.finite x) x := by
  unfold CpuF32.finite Outcome.require
  split_ifs
  · exact .inl rfl
  · exact .inr rfl

theorem bind {x : Outcome PortableError α} {a : α} {f : α → Outcome PortableError β} {b : β}
    (hx : Meets x a) (hf : Meets (f a) b) : Meets (x >>= f) b := by
  rcases hx with rfl | rfl
  · exact hf
  · exact .inr rfl

/-- A loop over a list follows a fold. -/
theorem foldlM {γ : Type} {l : List γ} {body : β → γ → Outcome PortableError β}
    {step : β → γ → β} (h : ∀ x ∈ l, ∀ b, Meets (body b x) (step b x)) (b : β) :
    Meets (l.foldlM body b) (l.foldl step b) := by
  induction l generalizing b with
  | nil => exact Meets.pure b
  | cons x l ih =>
    rw [List.foldlM_cons, List.foldl_cons]
    exact (h x List.mem_cons_self b).bind (ih (fun y hy => h y (List.mem_cons_of_mem x hy)) _)

end Meets

theorem finite_eq_ok_iff {x y : F32} : finite x = .ok y ↔ x.isFinite = true ∧ x = y := by
  rw [finite, Except.bind_eq_ok_iff]
  exact ⟨fun ⟨_, h, he⟩ => ⟨require_eq_ok_iff.1 h, Except.ok.inj he⟩,
    fun ⟨h, he⟩ => ⟨⟨⟩, require_of _ h, congrArg _ he⟩⟩

theorem requireEqual_of {a b : ℕ} (h : a = b) : requireEqual a b = .ok ⟨⟩ := require_of _ h

theorem validateIndices_of {indices : List ℕ} {limit : ℕ} (hne : indices ≠ [])
    (hrange : ∀ i ∈ indices, i < limit) : validateIndices indices limit = .ok ⟨⟩ :=
  require_of _ ⟨hne, hrange⟩

/-! ### Reading buffers -/

/-- A word read from bytes is the word of the list that the bytes store. -/
theorem valueAt_eq_index (data : List UInt8) (i : ℕ) :
    valueAt data i = index (F32.words data) i := by
  induction i generalizing data with
  | zero =>
    match data with
    | [] | [_] | [_, _] | [_, _, _] => rfl
    | b₀ :: b₁ :: b₂ :: b₃ :: rest => rfl
  | succ i ih =>
    match data with
    | [] | [_] | [_, _] | [_, _, _] =>
      rw [valueAt, Nat.succ_mul]
      rfl
    | b₀ :: b₁ :: b₂ :: b₃ :: rest =>
      rw [valueAt, Nat.succ_mul]
      exact ih rest

variable {buffer : CpuBuffer} {values : List F32} {n : ℕ}

theorem wordCount_of_room (h : buffer.Room n) : wordCount buffer = .ok n := by
  have hn := h.length_bytes
  have hne : buffer.isEmpty = false := by
    rw [CpuBuffer.isEmpty, List.isEmpty_eq_false_iff]
    exact List.ne_nil_of_length_pos (by have := h.pos; omega)
  have hmod : buffer.len % 4 = 0 := by
    rw [CpuBuffer.len]
    omega
  have hdiv : buffer.len / 4 = n := by
    rw [CpuBuffer.len]
    omega
  rw [wordCount, requireUsage, require_of _ h.storage, Except.ok_bind, require_of _ ⟨hne, hmod⟩,
    Except.ok_bind, hdiv]
  rfl

theorem Input.value_of_stores (h : buffer.Stores values) {i : ℕ} (hi : i < values.length) :
    (⟨buffer, values.length⟩ : Input).value i = .ok values[i] := by
  rw [Input.value, valueAt_eq_index]
  change index buffer.values i = _
  simp only [h.values_eq]
  exact index_of_lt hi

theorem Input.new_of_stores (h : buffer.Stores values) :
    Input.new buffer = .ok ⟨buffer, values.length⟩ := by
  have hchecks : (List.range values.length).forM (fun i => do
      let _ ← finite (← valueAt buffer.bytes i)) = (.ok ⟨⟩ : Outcome PortableError PUnit) := by
    refine forM_eq_ok_iff.2 fun i hi => ?_
    have hlt : i < values.length := List.mem_range.1 hi
    have hread : valueAt buffer.bytes i = .ok values[i] := Input.value_of_stores h hlt
    have hfinite := finite_eq_ok_iff.2 ⟨h.finite _ (List.getElem_mem hlt), rfl⟩
    rw [hread, Except.ok_bind, hfinite]
    rfl
  rw [Input.new, wordCount_of_room h.toRoom, Except.ok_bind, hchecks]
  rfl

/-! ### Staging and writing -/

/-- The errors of a kernel on well-formed buffers. -/
def KernelError (e : Stop PortableError) : Prop := IsRefusal e ∨ e = .error nonFinite

/-- The staged bytes are those of the computed values, unless a value is not finite. -/
theorem staging (ys : List F32) {compute : ℕ → Outcome PortableError F32}
    (hcompute : ∀ i (h : i < ys.length), Meets (compute i) ys[i]) {k : ℕ} (hk : k ≤ ys.length) :
    ((∀ y ∈ ys.take k, y.isFinite = true) ∧
      (List.range k).foldlM (fun scratch i => do
        pure (scratch ++ (← finite (← compute i)).toLeBytes)) [] = .ok (F32.bytes (ys.take k))) ∨
    (List.range k).foldlM (fun scratch i => do
      pure (scratch ++ (← finite (← compute i)).toLeBytes)) [] =
        (.error (.error nonFinite) : Outcome PortableError (List UInt8)) := by
  induction k with
  | zero => exact .inl ⟨by simp, rfl⟩
  | succ k ih =>
    have hlt : k < ys.length := hk
    have htake : ys.take (k + 1) = ys.take k ++ [ys[k]] := (List.take_append_getElem hlt).symm
    simp only [List.range_succ, List.foldlM_append, List.foldlM_cons, List.foldlM_nil, bind_pure]
    rcases ih hlt.le with ⟨hfinite, hok⟩ | herror
    · rw [hok, Except.ok_bind]
      rcases hcompute k hlt with hc | hc
      · rw [hc, Except.ok_bind]
        rcases hf : finite ys[k] with e | y
        · have he : finite ys[k] = .error (.error nonFinite) :=
            (Meets.finite ys[k]).resolve_left (by rw [hf]; nofun)
          exact .inr (by rw [← hf, he]; rfl)
        · obtain ⟨hy, rfl⟩ := finite_eq_ok_iff.1 hf
          refine .inl ⟨?_, ?_⟩
          · rw [htake]
            exact List.forall_mem_append.2 ⟨hfinite, List.forall_mem_singleton.2 hy⟩
          · rw [htake, F32.bytes, F32.bytes, List.flatMap_append, List.flatMap_singleton]
            rfl
      · exact .inr (by rw [hc]; rfl)
    · exact .inr (by rw [herror]; rfl)

end CpuF32

namespace CpuF32KernelsV1

open CpuF32

variable {output : CpuBuffer} {ys : List F32}

/-- Bytes of finite words written to a buffer with room for them. -/
theorem commitInto_spec (hroom : output.Room ys.length) (hfinite : ∀ y ∈ ys, y.isFinite = true)
    {scratch : List UInt8} (hlength : scratch.length = ys.length * 4)
    (hwords : F32.words scratch = ys) (capacity : ℕ) (operation : CpuF32Operation) :
    ∃ written report, (commitInto scratch capacity operation).returning output =
      pure (written, report) ∧ written.Stores ys ∧ written.descriptor = output.descriptor := by
  refine ⟨{ output with bytes := scratch },
    ⟨cpuF32ContractVersion, operation, output.len / 4, scratch.length, capacity⟩, ?_,
    ⟨⟨hroom.storage, hlength, hroom.pos⟩, hwords, hfinite⟩, rfl⟩
  rw [commitInto, Fallible.returning_second_bind,
    if_pos (hlength.trans hroom.length_bytes.symm)]
  rfl

theorem scratch_spec (kernels : CpuF32KernelsV1) {n : ℕ} (hroom : output.Room n)
    (hscratch : n * 4 ≤ kernels.maxScratchBytes) :
    Fallible.Spec (fun _ => True) (kernels.scratch output) (fun _ _ => True)
      fun e _ => IsRefusal e := by
  have hle : output.len ≤ kernels.maxScratchBytes := hroom.length_bytes.trans_le hscratch
  rw [scratch, wordCount_of_room hroom, Fallible.ofExcept_ok_bind, require_of _ hle,
    Fallible.ofExcept_ok_bind]
  exact (reserveBytes_spec output.len).conseq (fun _ h => h) (fun _ _ _ => trivial) fun _ _ h => h

/-- A kernel whose values are computed one by one writes them all. -/
theorem evaluate_spec (kernels : CpuF32KernelsV1) {n : ℕ} (hn : ys.length = n)
    (hroom : output.Room n) (hscratch : n * 4 ≤ kernels.maxScratchBytes)
    (operation : CpuF32Operation) {compute : ℕ → Outcome PortableError F32}
    (hcompute : ∀ i (h : i < ys.length), Meets (compute i) ys[i]) :
    Fallible.Spec (fun _ => True) (kernels.evaluate output n operation compute)
      (fun written _ => written.1.Stores ys) fun e _ => KernelError e := by
  subst hn
  have hcount : (do requireEqual (← wordCount output) ys.length :
      Outcome PortableError PUnit) = .ok ⟨⟩ := by
    rw [wordCount_of_room hroom, Except.ok_bind, requireEqual_of rfl]
  rw [evaluate, evaluateInto, Fallible.returning_second_bind, hcount, Fallible.ofExcept_ok_bind,
    Fallible.returning_onFirst_bind]
  refine ((kernels.scratch_spec hroom hscratch).conseq (fun _ h => h) (fun _ _ h => h)
    fun _ _ h => Or.inl h).bind fun capacity => ?_
  rcases staging ys hcompute le_rfl with ⟨hfinite, hok⟩ | herror
  · rw [List.take_length] at hfinite hok
    obtain ⟨written, report, hcommit, hstores, -⟩ := commitInto_spec hroom hfinite
      (F32.length_bytes ys) (F32.words_bytes ys) capacity operation
    rw [hok, Fallible.ofExcept_ok_bind, hcommit]
    exact fun _ _ => hstores
  · rw [herror]
    exact fun _ _ => Or.inr rfl

variable {left right input weights source : CpuBuffer} {xs ws : List F32}

theorem binary_spec (kernels : CpuF32KernelsV1) (operation : CpuF32BinaryOp)
    (hleft : left.Stores xs) (hright : right.Stores ws) (hlength : xs.length = ws.length)
    (hroom : output.Room xs.length) (hscratch : xs.length * 4 ≤ kernels.maxScratchBytes) :
    Fallible.Spec (fun _ => True) (kernels.binary operation left right output)
      (fun written _ => written.1.Stores (List.zipWith operation.apply xs ws))
      fun e _ => KernelError e := by
  have hn : (List.zipWith operation.apply xs ws).length = xs.length := by
    rw [List.length_zipWith, ← hlength, Nat.min_self]
  simp only [binary, binaryInto, Input.new_of_stores hleft, Input.new_of_stores hright,
    Fallible.ofExcept_ok_bind, Input.len, requireEqual_of hlength]
  refine kernels.evaluate_spec hn hroom hscratch _ fun i hi => ?_
  rw [Input.value_of_stores hleft (by omega), Except.ok_bind,
    Input.value_of_stores hright (by omega), List.getElem_zipWith]
  exact Meets.pure _

theorem relu_spec (kernels : CpuF32KernelsV1) (hinput : input.Stores xs)
    (hroom : output.Room xs.length) (hscratch : xs.length * 4 ≤ kernels.maxScratchBytes) :
    Fallible.Spec (fun _ => True) (kernels.relu input output)
      (fun written _ => written.1.Stores (xs.map Tensor.relu)) fun e _ => KernelError e := by
  have hn : (xs.map Tensor.relu).length = xs.length := List.length_map _
  simp only [relu, reluInto, Input.new_of_stores hinput, Fallible.ofExcept_ok_bind, Input.len]
  refine kernels.evaluate_spec hn hroom hscratch _ fun i hi => ?_
  rw [Input.value_of_stores hinput (by omega), Except.ok_bind, List.getElem_map]
  exact Meets.pure _

private theorem map_range_getElem! (xs : List F32) :
    (List.range xs.length).map (fun i => xs[i]!) = xs := by
  refine List.ext_getElem (by simp) fun i h₁ h₂ => ?_
  rw [List.getElem_map, List.getElem_range, getElem!_pos xs i h₂]

theorem sum_spec (kernels : CpuF32KernelsV1) (hinput : input.Stores xs) (hroom : output.Room 1)
    (hscratch : 1 * 4 ≤ kernels.maxScratchBytes) :
    Fallible.Spec (fun _ => True) (kernels.sum input output)
      (fun written _ => written.1.Stores [Tensor.sum xs]) fun e _ => KernelError e := by
  simp only [sum, sumInto, Input.new_of_stores hinput, Fallible.ofExcept_ok_bind, Input.len]
  have hn : [Tensor.sum xs].length = 1 := rfl
  refine kernels.evaluate_spec hn hroom hscratch _ fun i hi => ?_
  have hfold : Tensor.sum xs =
      (List.range xs.length).foldl (fun sum i => sum.add xs[i]!) (Binary.zero false) := by
    conv_lhs => rw [Tensor.sum, ← map_range_getElem! xs, List.foldl_map]
  have hget : [Tensor.sum xs][i] = Tensor.sum xs := List.getElem_singleton hi
  rw [hget, hfold]
  refine Meets.foldlM (fun j hj sum => ?_) _
  have hlt : j < xs.length := List.mem_range.1 hj
  rw [Input.value_of_stores hinput hlt, Except.ok_bind, getElem!_pos xs j hlt]
  exact Meets.finite _

theorem projectKn_spec (kernels : CpuF32KernelsV1) (hinput : input.Stores xs)
    (hweights : weights.Stores ws) {n : ℕ} (hlength : ws.length = xs.length * n)
    (hlt : ws.length < wordLimit) (hroom : output.Room n)
    (hscratch : n * 4 ≤ kernels.maxScratchBytes) :
    Fallible.Spec (fun _ => True) (kernels.projectKn input weights output xs.length n)
      (fun written _ => written.1.Stores (Tensor.projectKn xs ws)) fun e _ => KernelError e := by
  have hdims : xs.length ≠ 0 ∧ n ≠ 0 := ⟨hinput.pos.ne', hroom.pos.ne'⟩
  have hcols : ws.length / xs.length = n := by
    rw [hlength, Nat.mul_div_cancel_left n hinput.pos]
  have hn : (Tensor.projectKn xs ws).length = n := by
    rw [Tensor.projectKn, List.length_map, List.length_range, hcols]
  have hmul : checkedMul xs.length n = some ws.length := by
    rw [checkedMul_of_lt (hlength ▸ hlt), hlength]
  simp only [projectKn, projectKnInto, require_of _ hdims, hmul, okOr, Input.new_of_stores hinput,
    Input.new_of_stores hweights, Fallible.ofExcept_ok_bind, Input.len, requireEqual_of]
  refine kernels.evaluate_spec hn hroom hscratch _ fun column hcolumn => ?_
  have hcolumn' : column < n := hn ▸ hcolumn
  have hget : (Tensor.projectKn xs ws)[column] = Tensor.column xs ws n column := by
    simp only [Tensor.projectKn, List.getElem_map, List.getElem_range, hcols]
  rw [hget]
  refine Meets.foldlM (fun row hrow sum => ?_) _
  have hrow' : row < xs.length := List.mem_range.1 hrow
  have hweight : row * n + column < ws.length := by
    calc row * n + column < row * n + n := Nat.add_lt_add_left hcolumn' _
      _ = (row + 1) * n := (Nat.succ_mul row n).symm
      _ ≤ xs.length * n := Nat.mul_le_mul_right n hrow'
      _ = ws.length := hlength.symm
  rw [Input.value_of_stores hinput hrow', Except.ok_bind,
    Input.value_of_stores hweights hweight, Except.ok_bind, getElem!_pos xs row hrow',
    getElem!_pos ws _ hweight]
  exact Meets.finite _

theorem gather_spec (kernels : CpuF32KernelsV1) (hinput : input.Stores xs) {indices : List ℕ}
    (hne : indices ≠ []) (hrange : ∀ i ∈ indices, i < xs.length)
    (hroom : output.Room indices.length)
    (hscratch : indices.length * 4 ≤ kernels.maxScratchBytes) :
    Fallible.Spec (fun _ => True) (kernels.gather input indices output)
      (fun written _ => written.1.Stores (Tensor.gather xs indices)) fun e _ => KernelError e := by
  have hn : (Tensor.gather xs indices).length = indices.length := List.length_map _
  simp only [gather, gatherInto, Input.new_of_stores hinput, Fallible.ofExcept_ok_bind, Input.len,
    validateIndices_of hne hrange]
  refine kernels.evaluate_spec hn hroom hscratch _ fun i hi => ?_
  have hi' : i < indices.length := hn ▸ hi
  have hlt : indices[i] < xs.length := hrange _ (List.getElem_mem hi')
  have hget : (Tensor.gather xs indices)[i] = xs[indices[i]] := by
    rw [← getElem!_pos xs _ hlt]
    exact List.getElem_map _
  rw [index_of_lt hi', Except.ok_bind, Input.value_of_stores hinput hlt, hget]
  exact Meets.pure _

private theorem scatterAdd_cons (base : List F32) {ws : List F32} {d k : ℕ} (indices : List ℕ)
    (hd : d < base.length) (hk : k < ws.length) :
    Tensor.scatterAdd base (ws.drop k) (d :: indices) =
      Tensor.scatterAdd (base.set d (base[d].add ws[k])) (ws.drop (k + 1)) indices := by
  rw [Tensor.scatterAdd, List.drop_eq_getElem_cons hk, List.zip_cons_cons, List.foldl_cons,
    List.modify_eq_set_get _ hd, Tensor.scatterAdd]
  rfl

/-- The staged bytes of a scatter store the reference result, unless a value is not finite. -/
private theorem scatter_staging (hsource : source.Stores ws) (indices : List ℕ) {k : ℕ}
    (hk : k + indices.length = ws.length) {scratch : List UInt8} {base : List F32}
    (hlength : scratch.length = base.length * 4) (hwords : F32.words scratch = base)
    (hfinite : ∀ x ∈ base, x.isFinite = true) (hrange : ∀ i ∈ indices, i < base.length) :
    (∃ staged, (indices.zipIdx k).foldlM (fun scratch (destination, i) => do
        let value ← finite ((← valueAt scratch destination).add
          (← (⟨source, ws.length⟩ : Input).value i))
        copyAt scratch (destination * 4) value.toLeBytes) scratch = .ok staged ∧
      staged.length = base.length * 4 ∧
      F32.words staged = Tensor.scatterAdd base (ws.drop k) indices ∧
      ∀ x ∈ F32.words staged, x.isFinite = true) ∨
    (indices.zipIdx k).foldlM (fun scratch (destination, i) => do
      let value ← finite ((← valueAt scratch destination).add
        (← (⟨source, ws.length⟩ : Input).value i))
      copyAt scratch (destination * 4) value.toLeBytes) scratch = .error (.error nonFinite) := by
  induction indices generalizing k scratch base with
  | nil => exact .inl ⟨scratch, rfl, hlength, hwords, fun x hx => hfinite x (hwords ▸ hx)⟩
  | cons d indices ih =>
    rw [List.length_cons] at hk
    have hd : d < base.length := hrange d List.mem_cons_self
    have hklt : k < ws.length := by omega
    have hread : valueAt scratch d = .ok base[d] := by
      rw [valueAt_eq_index, hwords]
      exact index_of_lt hd
    have hcopy : ∀ x : F32, (copyAt scratch (d * 4) x.toLeBytes : Outcome PortableError _) =
        .ok (writeRegion scratch (d * 4) x.toLeBytes) := fun x =>
      copyAt_eq_ok_iff.2 ⟨by rw [F32.length_toLeBytes]; omega, rfl⟩
    rw [List.zipIdx_cons, List.foldlM_cons]
    simp only [hread, Input.value_of_stores hsource hklt, Except.ok_bind, bind_assoc]
    rcases hf : finite (base[d].add ws[k]) with e | y
    · have he : finite (base[d].add ws[k]) = .error (.error nonFinite) :=
        (Meets.finite _).resolve_left (by rw [hf]; nofun)
      exact .inr (by rw [← hf, he]; rfl)
    · obtain ⟨hy, rfl⟩ := finite_eq_ok_iff.1 hf
      rw [Except.ok_bind, hcopy, Except.ok_bind, scatterAdd_cons base indices hd hklt]
      have hlen : (base.set d (base[d].add ws[k])).length = base.length := List.length_set
      rw [← hlen]
      refine ih (by omega) ?_ ?_ ?_ fun i hi => hlen ▸ hrange i (List.mem_cons_of_mem d hi)
      · rw [length_writeRegion, hlen, hlength]
      · rw [F32.words_writeRegion (hwords.symm ▸ hd), hwords]
      · intro x hx
        rcases List.mem_or_eq_of_mem_set hx with hx | rfl
        · exact hfinite x hx
        · exact hy

theorem scatterAdd_spec (kernels : CpuF32KernelsV1) (hsource : source.Stores ws)
    (houtput : output.Stores xs) {indices : List ℕ} (hlength : ws.length = indices.length)
    (hrange : ∀ i ∈ indices, i < xs.length) (hscratch : xs.length * 4 ≤ kernels.maxScratchBytes) :
    Fallible.Spec (fun _ => True) (kernels.scatterAdd source indices output)
      (fun written _ => written.1.Stores (Tensor.scatterAdd xs ws indices))
      fun e _ => KernelError e := by
  have hne : indices ≠ [] := List.ne_nil_of_length_pos (hlength ▸ hsource.pos)
  simp only [scatterAdd, scatterAddInto, Input.new_of_stores hsource, Fallible.ofExcept_ok_bind,
    Input.len, requireEqual_of hlength, Fallible.returning_second_bind,
    Input.new_of_stores houtput, validateIndices_of hne hrange, Fallible.returning_onFirst_bind]
  refine ((kernels.scratch_spec houtput.toRoom hscratch).conseq (fun _ h => h) (fun _ _ h => h)
    fun _ _ h => Or.inl h).bind fun capacity => ?_
  rcases scatter_staging hsource indices (k := 0) (by omega) houtput.length_bytes houtput.values_eq
    houtput.finite hrange with ⟨staged, hok, hstaged, hwords, hfinite⟩ | herror
  · rw [List.drop_zero] at hwords
    have hsize : (Tensor.scatterAdd xs ws indices).length = xs.length := by
      rw [← hwords, F32.length_words, hstaged, Nat.mul_div_cancel _ (by decide)]
    obtain ⟨written, report, hcommit, hstores, -⟩ := commitInto_spec (hsize.symm ▸ houtput.toRoom)
      (hwords ▸ hfinite) (hsize.symm ▸ hstaged) hwords capacity .scatterAdd
    rw [hok, Fallible.ofExcept_ok_bind, hcommit]
    exact fun _ _ => hstores
  · rw [herror]
    exact fun _ _ => Or.inr rfl

end CpuF32KernelsV1

end NNIS
