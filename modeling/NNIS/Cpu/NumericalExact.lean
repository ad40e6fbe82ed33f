import NNIS.Cpu.NumericalSpec

/-!
# Reference kernels on values that stay finite

A kernel whose results and intermediates are finite fails for want of memory only, and what it
writes does not depend on the answers of the host.

## Main results

* `CpuDevice.createBuffer_delivers`, `CpuQueue.readBuffer_delivers`.
* `CpuF32KernelsV1.binary_delivers`, `CpuF32KernelsV1.gather_delivers`,
  `CpuF32KernelsV1.projectKn_delivers`.
-/

set_option autoImplicit false

namespace NNIS

open Outcome CpuF32

variable {granted : Prop}

theorem reserveBytes_delivers (size : ℕ) :
    Delivers granted IsRefusal (reserveBytes size) fun _ => True := by
  intro host hhost
  change Fallible.Post _ _ ((tryReserveExact size >>= _).run host)
  rw [Fallible.run_bind_ok rfl]
  cases h : host.answer 0 size with
  | ok capacity => exact ⟨trivial, fun hg => (hhost hg).rest⟩
  | error error =>
    refine ⟨⟨error, rfl⟩, fun hg => ?_⟩
    obtain ⟨capacity, hcapacity⟩ := hhost hg 0 size
    cases h.symm.trans hcapacity

/-- A valid descriptor within the device's limit gives a zeroed buffer. -/
theorem CpuDevice.createBuffer_delivers (device : CpuDevice) {descriptor : BufferDesc}
    (hsize : descriptor.sizeBytes ≠ 0) (husages : descriptor.usages.isEmpty = false)
    (hle : descriptor.sizeBytes ≤ device.maxBufferBytes)
    (hmemory : descriptor.memory ≠ .deviceLocal) :
    Delivers granted IsRefusal (device.createBuffer descriptor) fun buffer =>
      buffer.descriptor = descriptor ∧ buffer.bytes = List.replicate descriptor.sizeBytes 0 := by
  have hnew : BufferDesc.new descriptor.sizeBytes descriptor.usages descriptor.memory =
      .ok descriptor := BufferDesc.new_of_ne descriptor.memory hsize husages
  simp only [createBuffer, hnew, Fallible.ofExcept_ok_bind, Outcome.require_of _ hle,
    Outcome.require_of _ hmemory]
  exact (reserveBytes_delivers descriptor.sizeBytes).bind fun _ _ => Delivers.pure ⟨rfl, rfl⟩

namespace CpuQueue

theorem checkedRange_of_le {total offsetBytes sizeBytes : ℕ} (h : offsetBytes + sizeBytes ≤ total)
    (htotal : total < wordLimit) : checkedRange total offsetBytes sizeBytes = .ok ⟨⟩ := by
  rw [checkedRange, checkedAdd_of_lt (h.trans_lt htotal), okOr, Except.ok_bind]
  exact require_of _ h

/-- A whole buffer is read. -/
theorem readBuffer_delivers {buffer : CpuBuffer}
    (husage : buffer.descriptor.usages.contains .copySrc = true) (hlt : buffer.len < wordLimit) :
    Delivers granted IsRefusal (readBuffer buffer 0 buffer.len)
      fun bytes => bytes = buffer.bytes := by
  rw [readBuffer, requireUsage, require_of _ husage, Fallible.ofExcept_ok_bind,
    checkedRange_of_le (Nat.zero_add _).le hlt, Fallible.ofExcept_ok_bind]
  exact (reserveBytes_delivers buffer.len).bind fun _ _ => Delivers.pure (region_zero buffer.bytes)

end CpuQueue

namespace CpuF32

/-- The staged bytes of finite values. -/
theorem staging_of_finite (ys : List F32) (hfinite : ∀ y ∈ ys, y.isFinite = true)
    {compute : ℕ → Outcome PortableError F32}
    (hcompute : ∀ i (h : i < ys.length), compute i = .ok ys[i]) :
    (List.range ys.length).foldlM (fun scratch i => do
      pure (scratch ++ (← finite (← compute i)).toLeBytes)) [] = .ok (F32.bytes ys) := by
  have htake {k : ℕ} (hk : k ≤ ys.length) : (List.range k).foldlM (fun scratch i => do
      pure (scratch ++ (← finite (← compute i)).toLeBytes)) [] = .ok (F32.bytes (ys.take k)) := by
    induction k with
    | zero => rfl
    | succ k ih =>
      have hget : finite ys[k] = .ok ys[k] :=
        finite_eq_ok_iff.2 ⟨hfinite _ (List.getElem_mem hk), rfl⟩
      rw [List.range_succ, List.foldlM_append, ih (Nat.le_of_succ_le hk), Except.ok_bind,
        List.foldlM_cons, hcompute k hk, Except.ok_bind, hget, Except.ok_bind,
        ← List.take_append_getElem hk, F32.bytes, F32.bytes, List.flatMap_append,
        List.flatMap_singleton]
      rfl
  simpa using htake (Nat.le_refl ys.length)

/-- A loop over finite intermediates. -/
theorem foldlM_of_finite {k : ℕ} {body : F32 → ℕ → Outcome PortableError F32} (sum : ℕ → F32)
    (hbody : ∀ i < k, body (sum i) i = finite (sum (i + 1)))
    (hfinite : ∀ i ≤ k, (sum i).isFinite = true) :
    (List.range k).foldlM body (sum 0) = .ok (sum k) := by
  induction k with
  | zero => rfl
  | succ k ih =>
    have hlast : finite (sum (k + 1)) = .ok (sum (k + 1)) :=
      finite_eq_ok_iff.2 ⟨hfinite _ (Nat.le_refl _), rfl⟩
    rw [List.range_succ, List.foldlM_append, ih (fun i hi => hbody i (by omega))
      fun i hi => hfinite i (by omega), Except.ok_bind, List.foldlM_cons,
      hbody k (Nat.lt_succ_self k), hlast]
    rfl

end CpuF32

namespace CpuF32KernelsV1

variable {output : CpuBuffer} {ys : List F32}

/-- A kernel whose values are computed one by one and finite writes them all. -/
theorem evaluate_delivers (kernels : CpuF32KernelsV1) {n : ℕ} (hn : ys.length = n)
    (hroom : output.Room n) (hscratch : n * 4 ≤ kernels.maxScratchBytes)
    (operation : CpuF32Operation) (hfinite : ∀ y ∈ ys, y.isFinite = true)
    {compute : ℕ → Outcome PortableError F32}
    (hcompute : ∀ i (h : i < ys.length), compute i = .ok ys[i]) :
    Delivers granted IsRefusal (kernels.evaluate output n operation compute) fun written =>
      written.1.Stores ys ∧ written.1.descriptor = output.descriptor := by
  subst hn
  have hcount : (do requireEqual (← wordCount output) ys.length :
      Outcome PortableError PUnit) = .ok ⟨⟩ := by
    rw [wordCount_of_room hroom, Except.ok_bind, requireEqual_of rfl]
  have hle : output.len ≤ kernels.maxScratchBytes := hroom.length_bytes.trans_le hscratch
  rw [evaluate, evaluateInto, Fallible.returning_second_bind, hcount, Fallible.ofExcept_ok_bind,
    Fallible.returning_onFirst_bind, scratch, wordCount_of_room hroom,
    Fallible.ofExcept_ok_bind, require_of _ hle, Fallible.ofExcept_ok_bind]
  refine (reserveBytes_delivers output.len).bind fun capacity _ => ?_
  obtain ⟨written, report, hcommit, hwritten⟩ := commitInto_spec hroom hfinite
    (F32.length_bytes ys) (F32.words_bytes ys) capacity operation
  rw [staging_of_finite ys hfinite hcompute, Fallible.ofExcept_ok_bind, hcommit]
  exact Delivers.pure hwritten

variable {left right input weights : CpuBuffer} {xs ws : List F32}

theorem binary_delivers (kernels : CpuF32KernelsV1) (operation : CpuF32BinaryOp)
    (hleft : left.Stores xs) (hright : right.Stores ws) (hlength : xs.length = ws.length)
    (hroom : output.Room xs.length) (hscratch : xs.length * 4 ≤ kernels.maxScratchBytes)
    (hfinite : ∀ y ∈ List.zipWith operation.apply xs ws, y.isFinite = true) :
    Delivers granted IsRefusal (kernels.binary operation left right output) fun written =>
      written.1.Stores (List.zipWith operation.apply xs ws) ∧
        written.1.descriptor = output.descriptor := by
  have hn : (List.zipWith operation.apply xs ws).length = xs.length := by
    rw [List.length_zipWith, ← hlength, Nat.min_self]
  simp only [binary, binaryInto, Input.new_of_stores hleft, Input.new_of_stores hright,
    Fallible.ofExcept_ok_bind, Input.len, requireEqual_of hlength]
  refine kernels.evaluate_delivers hn hroom hscratch _ hfinite fun i hi => ?_
  rw [Input.value_of_stores hleft (by omega), Except.ok_bind,
    Input.value_of_stores hright (by omega), List.getElem_zipWith]
  rfl

theorem gather_delivers (kernels : CpuF32KernelsV1) (hinput : input.Stores xs) {indices : List ℕ}
    (hne : indices ≠ []) (hrange : ∀ i ∈ indices, i < xs.length)
    (hroom : output.Room indices.length)
    (hscratch : indices.length * 4 ≤ kernels.maxScratchBytes) :
    Delivers granted IsRefusal (kernels.gather input indices output) fun written =>
      written.1.Stores (Tensor.gather xs indices) ∧ written.1.descriptor = output.descriptor := by
  have hn : (Tensor.gather xs indices).length = indices.length := List.length_map _
  have hfinite : ∀ y ∈ Tensor.gather xs indices, y.isFinite = true := by
    intro y hy
    obtain ⟨i, hi, rfl⟩ := List.mem_map.1 hy
    rw [getElem!_pos xs i (hrange i hi)]
    exact hinput.finite _ (List.getElem_mem _)
  simp only [gather, gatherInto, Input.new_of_stores hinput, Fallible.ofExcept_ok_bind, Input.len,
    validateIndices_of hne hrange]
  refine kernels.evaluate_delivers hn hroom hscratch _ hfinite fun i hi => ?_
  have hi' : i < indices.length := hn ▸ hi
  have hlt : indices[i] < xs.length := hrange _ (List.getElem_mem hi')
  have hget : (Tensor.gather xs indices)[i] = xs[indices[i]] := by
    rw [← getElem!_pos xs _ hlt]
    exact List.getElem_map _
  rw [index_of_lt hi', Except.ok_bind, Input.value_of_stores hinput hlt, hget]

/-- A projection whose partial sums are known and finite. -/
theorem projectKn_delivers (kernels : CpuF32KernelsV1) (hinput : input.Stores xs)
    (hweights : weights.Stores ws) {n : ℕ} (hlength : ws.length = xs.length * n)
    (hlt : ws.length < wordLimit) (hroom : output.Room n)
    (hscratch : n * 4 ≤ kernels.maxScratchBytes) (sum : ℕ → ℕ → F32)
    (hzero : ∀ column < n, sum column 0 = .zero false)
    (hstep : ∀ column < n, ∀ row (h : row < xs.length) (h' : row * n + column < ws.length),
      xs[row].mulAdd ws[row * n + column] (sum column row) = sum column (row + 1))
    (hfinite : ∀ column < n, ∀ row ≤ xs.length, (sum column row).isFinite = true) :
    Delivers granted IsRefusal (kernels.projectKn input weights output xs.length n) fun written =>
      written.1.Stores ((List.range n).map fun column => sum column xs.length) ∧
        written.1.descriptor = output.descriptor := by
  have hdims : xs.length ≠ 0 ∧ n ≠ 0 := ⟨hinput.pos.ne', hroom.pos.ne'⟩
  have hmul : checkedMul xs.length n = some ws.length := by
    rw [checkedMul_of_lt (hlength ▸ hlt), hlength]
  simp only [projectKn, projectKnInto, require_of _ hdims, hmul, okOr,
    Input.new_of_stores hinput, Input.new_of_stores hweights, Fallible.ofExcept_ok_bind, Input.len,
    requireEqual_of]
  refine kernels.evaluate_delivers (by simp) hroom hscratch _ ?_ fun column hcolumn => ?_
  · intro y hy
    obtain ⟨column, hcolumn, rfl⟩ := List.mem_map.1 hy
    exact hfinite column (List.mem_range.1 hcolumn) _ (Nat.le_refl _)
  have hcolumn' : column < n := by simpa using hcolumn
  rw [List.getElem_map, List.getElem_range, ← hzero column hcolumn']
  refine foldlM_of_finite (sum column) (fun row hrow => ?_) fun row hrow =>
    hfinite column hcolumn' row hrow
  have hweight : row * n + column < ws.length := by
    calc row * n + column < row * n + n := Nat.add_lt_add_left hcolumn' _
      _ = (row + 1) * n := (Nat.succ_mul row n).symm
      _ ≤ xs.length * n := Nat.mul_le_mul_right n hrow
      _ = ws.length := hlength.symm
  rw [Input.value_of_stores hinput hrow, Except.ok_bind, Input.value_of_stores hweights hweight,
    Except.ok_bind, hstep column hcolumn' row hrow hweight]

end CpuF32KernelsV1

end NNIS
