import NNIS.Cpu.NumericalExact
import NNIS.Cpu.Session
import NNIS.Numeric.Integers

/-!
# The synthetic model counts tokens

The embedding of a token has one at the axis of the token, its number modulo the hidden size, and
the head copies the axes to the first logits. A sum of embeddings therefore holds on each axis the
number of tokens of that axis, and its projection the same numbers as logits, without rounding.

## Main definitions

* `SyntheticPortableModelSpecV1.embeddingRow`, `SyntheticPortableModelSpecV1.sumOf`,
  `SyntheticPortableModelSpecV1.logitsOf` — the row of a token, the sum and the logits of tokens.
* `SyntheticPortableModelSpecV1.embeddingTable`, `SyntheticPortableModelSpecV1.headTable`.

## Main results

* `CpuPortableSession.tensor_delivers`, `CpuPortableSession.readF32_delivers`.
* `CpuPortableSession.oneHotEmbedding_delivers`, `CpuPortableSession.identityLmHead_delivers`.
* `SyntheticPortableModelSpecV1.gather_embeddingTable`, `SyntheticPortableModelSpecV1.sumOf_concat`.
-/

set_option autoImplicit false

namespace NNIS

namespace SyntheticPortableModelSpecV1

variable (spec : SyntheticPortableModelSpecV1)

/-! ### Rows, sums and logits -/

/-- The word one at an axis, zero elsewhere. -/
def indicator (p : Prop) [Decidable p] : F32 := .ofNat (if p then 1 else 0)

/-- The embedding of a token. -/
def embeddingRow (token : ℕ) : List F32 :=
  (List.range spec.hiddenSize).map fun i => indicator (i = token % spec.hiddenSize)

/-- The number of tokens of an axis. -/
def axisCount (tokens : List ℕ) (i : ℕ) : ℕ := tokens.countP fun t => t % spec.hiddenSize = i

/-- The sum of the embeddings of tokens. -/
def sumOf (tokens : List ℕ) : List F32 :=
  (List.range spec.hiddenSize).map fun i => .ofNat (spec.axisCount tokens i)

/-- The logits of tokens. -/
def logitsOf (tokens : List ℕ) : List F32 :=
  (List.range spec.vocabSize).map fun v =>
    .ofNat (if v < spec.hiddenSize then spec.axisCount tokens v else 0)

/-- The embeddings of the vocabulary, one row after the other. -/
def embeddingTable : List F32 :=
  (List.range (spec.vocabSize * spec.hiddenSize)).map fun j =>
    indicator (j % spec.hiddenSize = j / spec.hiddenSize % spec.hiddenSize)

/-- The weights of the head, one row after the other. -/
def headTable : List F32 :=
  (List.range (spec.hiddenSize * spec.vocabSize)).map fun j =>
    indicator (j % spec.vocabSize = j / spec.vocabSize)

@[simp] theorem length_embeddingRow (token : ℕ) :
    (spec.embeddingRow token).length = spec.hiddenSize := by simp [embeddingRow]

@[simp] theorem length_sumOf (tokens : List ℕ) : (spec.sumOf tokens).length = spec.hiddenSize := by
  simp [sumOf]

@[simp] theorem length_embeddingTable :
    spec.embeddingTable.length = spec.vocabSize * spec.hiddenSize := by simp [embeddingTable]

@[simp] theorem length_headTable :
    spec.headTable.length = spec.hiddenSize * spec.vocabSize := by simp [headTable]

theorem counts_indicator (p : Prop) [Decidable p] :
    Binary.Counts binary32 (if p then 1 else 0) := by
  refine F32.counts ?_
  split_ifs <;> norm_num

theorem finite_indicator (p : Prop) [Decidable p] : (indicator p).isFinite = true :=
  Binary.isFinite_ofNat (counts_indicator p)

theorem finite_embeddingRow (token : ℕ) : ∀ x ∈ spec.embeddingRow token, x.isFinite = true := by
  intro x hx
  obtain ⟨i, -, rfl⟩ := List.mem_map.1 hx
  exact finite_indicator _

variable {spec} {tokens : List ℕ}

theorem axisCount_le (i : ℕ) : spec.axisCount tokens i ≤ tokens.length := List.countP_le_length

theorem counts_axisCount (h : tokens.length < 2 ^ 24) (i : ℕ) :
    Binary.Counts binary32 (spec.axisCount tokens i) :=
  F32.counts ((axisCount_le i).trans_lt h)

theorem finite_sumOf (h : tokens.length < 2 ^ 24) : ∀ x ∈ spec.sumOf tokens, x.isFinite = true := by
  intro x hx
  obtain ⟨i, -, rfl⟩ := List.mem_map.1 hx
  exact Binary.isFinite_ofNat (counts_axisCount h i)

theorem sumOf_nil : spec.sumOf [] = List.replicate spec.hiddenSize (.zero false) := by
  simp [sumOf, axisCount]

theorem axisCount_concat (token i : ℕ) :
    spec.axisCount (tokens ++ [token]) i =
      spec.axisCount tokens i + if i = token % spec.hiddenSize then 1 else 0 := by
  simp [axisCount, List.countP_append, List.countP_singleton, eq_comm]

/-- One more token adds its embedding to the sum. -/
theorem sumOf_concat (h : tokens.length < 2 ^ 24) (token : ℕ) :
    List.zipWith Binary.add (spec.sumOf tokens) (spec.embeddingRow token) =
      spec.sumOf (tokens ++ [token]) := by
  rw [sumOf, sumOf, embeddingRow, List.zipWith_map, List.zipWith_self]
  refine List.map_congr_left fun i _ => ?_
  rw [indicator, Binary.ofNat_add_ofNat (counts_axisCount h i) (counts_indicator _),
    axisCount_concat]

/-- The row of a token is gathered from the table. -/
theorem gather_embeddingTable {token : ℕ} (h : token < spec.vocabSize) :
    Tensor.gather spec.embeddingTable
      ((List.range spec.hiddenSize).map fun i => token * spec.hiddenSize + i) =
        spec.embeddingRow token := by
  rw [Tensor.gather, List.map_map, embeddingRow]
  refine List.map_congr_left fun i hi => ?_
  have hlt : i < spec.hiddenSize := List.mem_range.1 hi
  have hplace : token * spec.hiddenSize + i < spec.vocabSize * spec.hiddenSize :=
    calc token * spec.hiddenSize + i < (token + 1) * spec.hiddenSize := by
          rw [Nat.succ_mul]
          exact Nat.add_lt_add_left hlt _
      _ ≤ spec.vocabSize * spec.hiddenSize := Nat.mul_le_mul_right _ h
  have hmod : (token * spec.hiddenSize + i) % spec.hiddenSize = i := by
    rw [Nat.mul_comm, Nat.mul_add_mod, Nat.mod_eq_of_lt hlt]
  have hdiv : (token * spec.hiddenSize + i) / spec.hiddenSize = token := by
    rw [Nat.mul_comm, Nat.mul_add_div spec.hiddenSize_mem.1, Nat.div_eq_of_lt hlt, Nat.add_zero]
  rw [Function.comp_apply, getElem!_pos _ _ (by simpa using hplace)]
  simp [embeddingTable, hmod, hdiv]

/-- The sum of the products of the first rows of a column of the head. -/
def partialLogit (spec : SyntheticPortableModelSpecV1) (tokens : List ℕ) (v row : ℕ) : F32 :=
  .ofNat (if v < row then spec.axisCount tokens v else 0)

theorem partialLogit_zero (v : ℕ) : partialLogit spec tokens v 0 = .zero false := by
  simp [partialLogit]

theorem finite_partialLogit (h : tokens.length < 2 ^ 24) (v row : ℕ) :
    (partialLogit spec tokens v row).isFinite = true := by
  rw [partialLogit]
  split_ifs
  · exact Binary.isFinite_ofNat (counts_axisCount h v)
  · exact Binary.isFinite_ofNat (F32.counts (by norm_num))

theorem partialLogit_succ (h : tokens.length < 2 ^ 24) {v row : ℕ} (hv : v < spec.vocabSize)
    (hrow : row < (spec.sumOf tokens).length)
    (hplace : row * spec.vocabSize + v < spec.headTable.length) :
    (spec.sumOf tokens)[row].mulAdd spec.headTable[row * spec.vocabSize + v]
      (partialLogit spec tokens v row) = partialLogit spec tokens v (row + 1) := by
  have hmod : (row * spec.vocabSize + v) % spec.vocabSize = v := by
    rw [Nat.mul_comm, Nat.mul_add_mod, Nat.mod_eq_of_lt hv]
  have hdiv : (row * spec.vocabSize + v) / spec.vocabSize = row := by
    rw [Nat.mul_comm, Nat.mul_add_div spec.vocabSize_mem.1, Nat.div_eq_of_lt hv, Nat.add_zero]
  have hcount : Binary.Counts binary32 (if v < row then spec.axisCount tokens v else 0) := by
    split_ifs
    · exact counts_axisCount h v
    · exact F32.counts (by norm_num)
  simp only [sumOf, headTable, List.getElem_map, List.getElem_range, hmod, hdiv, indicator]
  rw [partialLogit, Binary.ofNat_mulAdd_ofNat (counts_axisCount h row) (counts_indicator _) hcount,
    partialLogit]
  congr 1
  rcases Nat.lt_trichotomy v row with hlt | rfl | hgt
  · simp [hlt, hlt.ne, Nat.lt_succ_of_lt hlt]
  · simp
  · have hnot : ¬ v < row + 1 := Nat.not_lt.2 hgt
    simp [hgt.not_gt, hgt.ne', hnot]

end SyntheticPortableModelSpecV1

namespace CpuPortableSession

open Outcome CpuF32 SyntheticPortableModelSpecV1

variable {granted : Prop}

/-! ### Errors of the host -/

/-- An error that reports a refusal of the host, or a failure of the device. -/
def IsBackend (e : Stop PortableSessionError) : Prop := ∃ message, e = .error (.backend message)

theorem isBackend_mapPortable {e : Stop PortableError} (h : IsRefusal e) :
    IsBackend (mapPortable e) := by
  obtain ⟨error, rfl⟩ := h
  exact ⟨_, rfl⟩

theorem portable_delivers {α : Type} {m : HostM α} {Q : α → Prop}
    (h : Delivers granted IsRefusal m Q) : Delivers granted IsBackend (portable m) Q :=
  h.mapError fun _ => isBackend_mapPortable

/-! ### Tensors -/

theorem contains_storage : tensorUsages.contains .storage = true := by decide

theorem contains_copySrc : tensorUsages.contains .copySrc = true := by decide

theorem contains_copyDst : tensorUsages.contains .copyDst = true := by decide

/-- The buffer holds the values, as a tensor of a session. -/
structure IsTensor (buffer : CpuBuffer) (values : List F32) :
    Prop extends buffer.Stores values where
  usages_eq : buffer.descriptor.usages = tensorUsages

theorem tensor_delivers (device : CpuDevice) {values : List F32} (hpos : 0 < values.length)
    (hfinite : ∀ x ∈ values, x.isFinite = true) (hfit : values.length * 4 ≤ device.maxBufferBytes) :
    Delivers granted IsBackend (tensor device values) fun buffer => IsTensor buffer values := by
  have hne : values ≠ [] := List.ne_nil_of_length_pos hpos
  have hlength : (F32.bytes values).length = values.length * 4 := F32.length_bytes values
  have hdesc : BufferDesc.new (F32.bytes values).length tensorUsages .host =
      .ok ⟨(F32.bytes values).length, tensorUsages, .host⟩ :=
    BufferDesc.new_of_ne .host (by omega) rfl
  rw [tensor, require_of _ hne, Fallible.ofExcept_ok_bind]
  refine portable_delivers ?_
  rw [hdesc, Fallible.ofExcept_ok_bind]
  refine (device.createBuffer_delivers (by dsimp only; omega) rfl (by dsimp only; omega)
    MemoryClass.noConfusion).bind fun buffer hbuffer => ?_
  have hlen : buffer.len = (F32.bytes values).length := by
    rw [CpuBuffer.len, hbuffer.2, List.length_replicate]
  have hlt : buffer.len < wordLimit := by
    have hmax : isizeMax < wordLimit := by decide
    have hle := device.maxBufferBytes_le
    omega
  have husage : buffer.descriptor.usages.contains .copyDst = true := by
    rw [hbuffer.1]
    exact contains_copyDst
  rw [CpuQueue.writeBuffer, requireUsage, require_of _ husage, Except.ok_bind,
    CpuQueue.checkedRange_of_le (by omega) hlt, Except.ok_bind]
  have hbytes : writeRegion buffer.bytes 0 (F32.bytes values) = F32.bytes values :=
    writeRegion_zero hlen.symm
  refine Delivers.ofExcept rfl ⟨⟨⟨?_, ?_, hpos⟩, ?_, hfinite⟩, congrArg BufferDesc.usages hbuffer.1⟩
  · rw [hbuffer.1]
    exact contains_storage
  · exact (congrArg List.length hbytes).trans hlength
  · exact (congrArg F32.words hbytes).trans (F32.words_bytes values)

theorem readF32_delivers {buffer : CpuBuffer} {values : List F32} (h : IsTensor buffer values)
    (hlt : values.length * 4 < wordLimit) :
    Delivers granted IsBackend (readF32 buffer) fun read => read = values := by
  have husage : buffer.descriptor.usages.contains .copySrc = true := by
    rw [h.usages_eq]
    exact contains_copySrc
  have hlen : buffer.len = values.length * 4 := h.length_bytes
  rw [readF32]
  refine (portable_delivers (CpuQueue.readBuffer_delivers husage (by omega))).bind
    fun bytes hbytes => ?_
  rw [hbytes, require_of _ (by rw [h.length_bytes, Nat.mul_mod_left]), Fallible.ofExcept_ok_bind]
  exact Delivers.pure h.values_eq

/-! ### The weights -/

/-- Setting places of a list one after the other sets them all. -/
theorem foldlM_modifyAt {ε : Type} {l : List F32} {n : ℕ} (place : ℕ → ℕ) (value : F32)
    (hplace : ∀ i < n, place i < l.length) :
    ∃ l', ((List.range n).foldlM (fun values i => modifyAt values (place i) fun _ => value) l :
        Outcome ε (List F32)) = .ok l' ∧ l'.length = l.length ∧
      ∀ j < l.length, l'[j]? = if ∃ i < n, place i = j then some value else l[j]? := by
  induction n with
  | zero => exact ⟨l, rfl, rfl, fun j _ => by simp⟩
  | succ n ih =>
    obtain ⟨l', hrun, hlength, hget⟩ := ih fun i hi => hplace i (Nat.lt_succ_of_lt hi)
    have hn := hplace n (Nat.lt_succ_self n)
    refine ⟨l'.modify (place n) fun _ => value, ?_, by rw [List.length_modify, hlength],
      fun j hj => ?_⟩
    · rw [List.range_succ, List.foldlM_append, hrun, Except.ok_bind, List.foldlM_cons]
      have hset : (modifyAt l' (place n) fun _ => value : Outcome ε (List F32)) =
          .ok (l'.modify (place n) fun _ => value) :=
        modifyAt_eq_ok_iff.2 ⟨hlength ▸ hn, rfl⟩
      rw [hset]
      rfl
    · have hj' : j < l'.length := hlength ▸ hj
      by_cases heq : place n = j
      · have hexists : ∃ i < n + 1, place i = j := ⟨n, Nat.lt_succ_self n, heq⟩
        rw [if_pos hexists, ← heq, List.getElem?_modify_eq, List.getElem?_eq_getElem (heq ▸ hj')]
        rfl
      · have hiff : (∃ i < n + 1, place i = j) ↔ ∃ i < n, place i = j := by
          constructor
          · rintro ⟨i, hi, rfl⟩
            rcases Nat.lt_or_eq_of_le (Nat.le_of_lt_succ hi) with hlt | rfl
            · exact ⟨i, hlt, rfl⟩
            · exact absurd rfl heq
          · rintro ⟨i, hi, h⟩
            exact ⟨i, Nat.lt_succ_of_lt hi, h⟩
        simp only [hiff, List.getElem?_modify_ne (h := heq), hget j hj]

/-- A table of zeros in which places are set to one. -/
theorem exists_table {n size : ℕ} (place : ℕ → ℕ) (hplace : ∀ i < n, place i < size)
    (p : ℕ → Prop) [DecidablePred p] (hp : ∀ j < size, p j ↔ ∃ i < n, place i = j) :
    ((List.range n).foldlM (fun values i => modifyAt values (place i) fun _ => unitWeight)
        (List.replicate size (.zero false)) : Outcome PortableSessionError (List F32)) =
      .ok ((List.range size).map fun j => indicator (p j)) := by
  obtain ⟨l, hrun, hlength, hget⟩ := foldlM_modifyAt (ε := PortableSessionError)
    (l := List.replicate size (.zero false)) place unitWeight (by simpa using hplace)
  rw [hrun]
  refine congrArg _ (List.ext_getElem? fun j => ?_)
  rcases Nat.lt_or_ge j size with hj | hj
  · rw [hget j (by simpa using hj), List.getElem?_map, List.getElem?_range hj, Option.map_some,
      indicator]
    by_cases h : p j
    · rw [if_pos ((hp j hj).1 h), if_pos h, unitWeight]
    · rw [if_neg (mt (hp j hj).2 h), if_neg h, Binary.ofNat_zero]
      simp [hj]
  · rw [List.getElem?_eq_none (by rw [hlength, List.length_replicate]; exact hj),
      List.getElem?_eq_none (by simpa using hj)]

variable {spec : SyntheticPortableModelSpecV1} {device : CpuDevice}

theorem oneHotEmbedding_eq : oneHotEmbedding spec device = tensor device spec.embeddingTable := by
  have hhidden := spec.hiddenSize_mem.1
  have hmod (t : ℕ) : t % spec.hiddenSize < spec.hiddenSize := Nat.mod_lt _ hhidden
  have hplace (t : ℕ) (ht : t < spec.vocabSize) :
      t * spec.hiddenSize + t % spec.hiddenSize < spec.vocabSize * spec.hiddenSize :=
    calc t * spec.hiddenSize + t % spec.hiddenSize
        < t * spec.hiddenSize + spec.hiddenSize := Nat.add_lt_add_left (hmod t) _
      _ = (t + 1) * spec.hiddenSize := (Nat.succ_mul ..).symm
      _ ≤ spec.vocabSize * spec.hiddenSize := Nat.mul_le_mul_right _ ht
  have htable := exists_table (n := spec.vocabSize)
    (fun t => t * spec.hiddenSize + t % spec.hiddenSize) hplace
    (fun j => j % spec.hiddenSize = j / spec.hiddenSize % spec.hiddenSize) fun j hj => by
      constructor
      · intro h
        refine ⟨j / spec.hiddenSize, (Nat.div_lt_iff_lt_mul hhidden).2 hj, ?_⟩
        rw [← h]
        exact Nat.div_add_mod' j spec.hiddenSize
      · rintro ⟨t, -, rfl⟩
        rw [Nat.mul_comm, Nat.mul_add_mod, Nat.mod_mod, Nat.mul_add_div hhidden,
          Nat.div_eq_of_lt (hmod t), Nat.add_zero]
  rw [oneHotEmbedding, htable, Fallible.ofExcept_ok_bind]
  rfl

theorem oneHotEmbedding_delivers
    (hfit : spec.vocabSize * spec.hiddenSize * 4 ≤ device.maxBufferBytes) :
    Delivers granted IsBackend (oneHotEmbedding spec device) fun buffer =>
      IsTensor buffer spec.embeddingTable := by
  rw [oneHotEmbedding_eq]
  refine tensor_delivers device ?_ ?_ ?_
  · simpa using ⟨spec.vocabSize_mem.1, spec.hiddenSize_mem.1⟩
  · intro x hx
    obtain ⟨j, -, rfl⟩ := List.mem_map.1 hx
    exact finite_indicator _
  · simpa using hfit

theorem identityLmHead_eq : identityLmHead spec device = tensor device spec.headTable := by
  have hvocab := spec.vocabSize_mem.1
  have hplace (i : ℕ) (hi : i < min spec.hiddenSize spec.vocabSize) :
      i * spec.vocabSize + i < spec.hiddenSize * spec.vocabSize :=
    calc i * spec.vocabSize + i
        < i * spec.vocabSize + spec.vocabSize := Nat.add_lt_add_left (by omega) _
      _ = (i + 1) * spec.vocabSize := (Nat.succ_mul ..).symm
      _ ≤ spec.hiddenSize * spec.vocabSize := Nat.mul_le_mul_right _ (by omega)
  have htable := exists_table (n := min spec.hiddenSize spec.vocabSize)
    (fun i => i * spec.vocabSize + i) hplace
    (fun j => j % spec.vocabSize = j / spec.vocabSize) fun j hj => by
      constructor
      · intro h
        have hdiv : j / spec.vocabSize < spec.hiddenSize := (Nat.div_lt_iff_lt_mul hvocab).2 hj
        have hlt := Nat.mod_lt j hvocab
        refine ⟨j / spec.vocabSize, by omega, ?_⟩
        calc j / spec.vocabSize * spec.vocabSize + j / spec.vocabSize
            = j / spec.vocabSize * spec.vocabSize + j % spec.vocabSize := by rw [h]
          _ = j := Nat.div_add_mod' j spec.vocabSize
      · rintro ⟨i, hi, rfl⟩
        have hlt : i < spec.vocabSize := by omega
        rw [Nat.mul_comm, Nat.mul_add_mod, Nat.mod_eq_of_lt hlt, Nat.mul_add_div hvocab,
          Nat.div_eq_of_lt hlt, Nat.add_zero]
  rw [identityLmHead, htable, Fallible.ofExcept_ok_bind]
  rfl

theorem identityLmHead_delivers
    (hfit : spec.vocabSize * spec.hiddenSize * 4 ≤ device.maxBufferBytes) :
    Delivers granted IsBackend (identityLmHead spec device) fun buffer =>
      IsTensor buffer spec.headTable := by
  rw [identityLmHead_eq]
  refine tensor_delivers device ?_ ?_ ?_
  · simpa using ⟨spec.hiddenSize_mem.1, spec.vocabSize_mem.1⟩
  · intro x hx
    obtain ⟨j, -, rfl⟩ := List.mem_map.1 hx
    exact finite_indicator _
  · rw [length_headTable, Nat.mul_comm spec.hiddenSize]
    exact hfit

end CpuPortableSession

end NNIS
