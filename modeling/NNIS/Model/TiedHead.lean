import NNIS.Model.SafetensorsLoader

/-!
# Tied checkpoints

A checkpoint with tied embeddings loads as the checkpoint does whose head is a copy of its embedding
table. The head of the first one is transposed after the table has been stored in the type of the
execution, the head of the second one before, in its file's type; the order in which the tensors of
a checkpoint are loaded does not matter.

## Main definitions

* `Safetensors.HostTensor.bits` — the bit patterns of a tensor.
* `Safetensors.outcome` — what loading some tensors in order gives, errors aside.

## Main results

* `Safetensors.outcome_perm` — the order of the tensors does not matter.
* `Safetensors.tied_eq_copied`.
-/

set_option autoImplicit false

namespace NNIS

namespace Safetensors

/-- The bit patterns of the elements of a tensor. -/
def HostTensor.bits : HostTensor → List ℕ
  | .f32 values => values.map Binary.toBits
  | .bf16 values => values.map UInt16.toNat

variable {metadata : SafetensorsMetadata} {executionDtype : WeightDType}

/-! ### The order of the tensors -/

/-- The tensors after one more, if it loads. -/
def next (metadata : SafetensorsMetadata) (executionDtype : WeightDType)
    (tensors : Option Tensors) (view : TensorView) : Option Tensors :=
  tensors.bind fun tensors => (loadTensor metadata executionDtype tensors view).toOption

/-- The tensors after some, if all of them load. -/
def outcome (metadata : SafetensorsMetadata) (executionDtype : WeightDType)
    (views : List TensorView) (tensors : Tensors) : Option Tensors :=
  views.foldl (next metadata executionDtype) (some tensors)

private theorem foldl_next_none (views : List TensorView) :
    views.foldl (next metadata executionDtype) none = none := by
  induction views with
  | nil => rfl
  | cons view views ih => exact ih

/-- The tensor that a file tensor becomes, with its name and shape. -/
def loaded (metadata : SafetensorsMetadata) (executionDtype : WeightDType) (view : TensorView) :
    Option (Option (String × List ℕ × HostTensor)) :=
  match tensorSpec view.name metadata with
  | none => some none
  | some spec => (loadKnown metadata executionDtype view spec).toOption.map fun host =>
      some (spec.internalName, spec.internalShape, host)

/-- Add a tensor, if there is one, under a name that is not taken. -/
def added (tensors : Tensors) : Option (String × List ℕ × HostTensor) → Option Tensors
  | none => some tensors
  | some (name, tensor) =>
    if (tensors name).isSome then none else some (Function.update tensors name (some tensor))

theorem added_none (tensors : Tensors) : added tensors none = some tensors := rfl

theorem added_some (tensors : Tensors) (name : String) (tensor : List ℕ × HostTensor) :
    added tensors (some (name, tensor)) =
      if (tensors name).isSome then none
      else some (Function.update tensors name (some tensor)) := rfl

theorem toOption_loadTensor (tensors : Tensors) (view : TensorView) :
    (loadTensor metadata executionDtype tensors view).toOption =
      (loaded metadata executionDtype view).bind (added tensors) := by
  unfold loadTensor loaded
  cases tensorSpec view.name metadata with
  | none => rfl
  | some spec =>
    dsimp only
    cases loadKnown metadata executionDtype view spec with
    | error e => rfl
    | ok host =>
      change (insertTensor tensors spec.internalName spec.internalShape host).toOption =
        added tensors (some (spec.internalName, spec.internalShape, host))
      rw [added_some, insertTensor]
      cases tensors spec.internalName <;> simp [Outcome.raise, Except.toOption]

/-- Adding two tensors does not depend on their order. -/
theorem added_comm (tensors : Tensors) (a b : Option (String × List ℕ × HostTensor)) :
    (added tensors a).bind (added · b) = (added tensors b).bind (added · a) := by
  cases a with
  | none =>
    rw [added_none, Option.bind_some]
    cases added tensors b <;> rfl
  | some a =>
    cases b with
    | none =>
      rw [added_none, Option.bind_some]
      cases added tensors (some a) <;> rfl
    | some b =>
      obtain ⟨name, x⟩ := a
      obtain ⟨name', y⟩ := b
      simp only [added_some]
      by_cases hname : name = name'
      · subst hname
        split_ifs <;> simp
      · by_cases hx : (tensors name).isSome = true <;> by_cases hy : (tensors name').isSome = true
          <;> simp [hx, hy, Function.update_of_ne, hname, Ne.symm hname]
        exact Function.update_comm hname _ _ _

/-- The order of the tensors of a checkpoint does not matter. -/
theorem outcome_perm {views views' : List TensorView} (h : views.Perm views')
    (tensors : Tensors) :
    outcome metadata executionDtype views tensors =
      outcome metadata executionDtype views' tensors := by
  have hcomm : RightCommutative (next metadata executionDtype) := by
    refine ⟨fun tensors a b => ?_⟩
    cases tensors with
    | none => rfl
    | some tensors =>
      simp only [next, Option.bind_some, toOption_loadTensor]
      cases loaded metadata executionDtype a with
      | none => cases (loaded metadata executionDtype b).bind (added tensors) <;> rfl
      | some x =>
        cases loaded metadata executionDtype b with
        | none =>
          rw [Option.bind_some]
          cases added tensors x <;> rfl
        | some y => exact added_comm tensors x y
  exact h.foldl_eq _

theorem outcome_concat (view : TensorView) (views : List TensorView) (tensors : Tensors) :
    outcome metadata executionDtype (views ++ [view]) tensors =
      (outcome metadata executionDtype views tensors).bind fun tensors =>
        (loaded metadata executionDtype view).bind (added tensors) := by
  rw [outcome, List.foldl_append]
  exact congrArg _ (funext fun tensors => toOption_loadTensor tensors view)

private theorem toOption_foldlM_loadTensor (views : List TensorView) (tensors : Tensors) :
    (views.foldlM (loadTensor metadata executionDtype) tensors).toOption =
      outcome metadata executionDtype views tensors := by
  induction views generalizing tensors with
  | nil => rfl
  | cons view views ih =>
    rw [List.foldlM_cons, outcome, List.foldl_cons, next, Option.bind_some]
    cases loadTensor metadata executionDtype tensors view with
    | error e => exact (foldl_next_none views).symm
    | ok tensors' => exact ih tensors'

private theorem foldlM_loadShard (shards : List (List TensorView)) (tensors : Tensors) :
    shards.foldlM (loadShard metadata executionDtype) tensors =
      shards.flatten.foldlM (loadTensor metadata executionDtype) tensors := by
  induction shards generalizing tensors with
  | nil => rfl
  | cons shard shards ih =>
    rw [List.foldlM_cons, List.flatten_cons, List.foldlM_append, loadShard]
    exact congrArg _ (funext fun tensors => ih tensors)

/-- What a checkpoint loads to, errors aside. -/
theorem toOption_loadTensors (shards : List (List TensorView)) :
    (loadTensors metadata executionDtype shards).toOption =
      (outcome metadata executionDtype shards.flatten fun _ => none).bind fun tensors =>
        (addTiedLmHeadIfNeeded metadata tensors).toOption := by
  rw [loadTensors, foldlM_loadShard, ← toOption_foldlM_loadTensor]
  cases shards.flatten.foldlM (loadTensor metadata executionDtype) fun _ => none <;> rfl

/-! ### Names -/

theorem tensorSpec_of_direct {hfName : String} {spec : TensorSpec}
    (h : directSpec metadata hfName = some spec) : tensorSpec hfName metadata = some spec := by
  have hfits : metadata.numKeyValueHeads * metadata.headDim < wordLimit :=
    metadata.keyValueWidth_le.trans_lt metadata.hiddenSize_lt
  rw [tensorSpec, checkedMul_of_lt hfits, Option.bind_eq_bind, Option.bind_some, h]

theorem tensorSpec_embedding :
    tensorSpec "model.embed_tokens.weight" metadata =
      some ⟨"token_embedding", [metadata.vocabSize, metadata.hiddenSize],
        [metadata.vocabSize, metadata.hiddenSize], false⟩ :=
  tensorSpec_of_direct (by rw [directSpec, if_pos rfl])

theorem tensorSpec_head :
    tensorSpec "lm_head.weight" metadata =
      some ⟨"lm_head", [metadata.vocabSize, metadata.hiddenSize],
        [metadata.hiddenSize, metadata.vocabSize], true⟩ := by
  refine tensorSpec_of_direct ?_
  rw [directSpec, if_neg (by decide), if_neg (by decide), if_pos rfl]

/-- Only the head of a file becomes the head of the graph. -/
theorem internalName_ne_head {hfName : String} {spec : TensorSpec}
    (h : tensorSpec hfName metadata = some spec) (hname : hfName ≠ "lm_head.weight") :
    spec.internalName ≠ "lm_head" := by
  obtain ⟨kvWidth, -, h⟩ := Option.bind_eq_some_iff.1 h
  cases hdirect : directSpec metadata hfName with
  | some direct =>
    rw [hdirect] at h
    obtain rfl := Option.some.inj h
    rw [directSpec] at hdirect
    split_ifs at hdirect <;> obtain rfl := Option.some.inj hdirect
    · exact show "token_embedding" ≠ "lm_head" by decide
    · exact show "final_norm" ≠ "lm_head" by decide
  | none =>
    rw [hdirect] at h
    obtain ⟨layer, -, hlayer⟩ := List.exists_of_findSome?_eq_some h
    obtain ⟨entry, -, rfl⟩ := Option.map_eq_some_iff.1 hlayer
    intro hname
    have hlayers : (toString "layers.").toList = 'l' :: 'a' :: ['y', 'e', 'r', 's', '.'] := rfl
    have hchars := congrArg (fun s : String => s.toList.take 2) hname
    simp [String.toList_append, hlayers] at hchars

/-! ### Copies -/

/-- Transposing commutes with a function of the elements, its errors included. -/
theorem transposeMatrix_map {α β : Type} [Inhabited α] [Inhabited β] {f : α → β}
    (hf : f default = default) (values : List α) (rows cols : ℕ) :
    transposeMatrix (values.map f) rows cols =
      transposeMatrix values rows cols >>= fun output => .ok (output.map f) := by
  rw [transposeMatrix, transposeMatrix, List.length_map]
  cases helements : checkedMul rows cols with
  | none => rfl
  | some elements =>
    obtain ⟨rfl, -⟩ := checkedMul_eq_some_iff.1 helements
    by_cases hlength : values.length = rows * cols
    · have hmap : (values.map f).length = rows * cols := by rw [List.length_map, hlength]
      simp only [Outcome.okOr, Except.ok_bind, Outcome.require_of _ hlength,
        Outcome.transposeLoop_eq hlength, Outcome.transposeLoop_eq hmap]
      rw [map_transposed, hf]
    · simp only [Outcome.okOr, Except.ok_bind, Outcome.require_of_not _ hlength]
      rfl

theorem widen_default : widen default = default := by decide

/-- Transposing commutes with storing in the type of the execution. -/
theorem transposeHost_materialize {host host' : HostTensor} {rows cols : ℕ}
    (h : materializeHostDtype host executionDtype = .ok host') :
    transposeHost host' rows cols =
      transposeHost host rows cols >>= fun host => materializeHostDtype host executionDtype := by
  cases host with
  | f32 values =>
    cases executionDtype with
    | bf16 => exact absurd h nofun
    | f32 =>
      obtain rfl := Except.ok.inj h
      rw [transposeHost]
      cases transposeMatrix values rows cols <;> rfl
  | bf16 values =>
    cases executionDtype with
    | bf16 =>
      obtain rfl := Except.ok.inj h
      rw [transposeHost]
      cases transposeMatrix values rows cols <;> rfl
    | f32 =>
      obtain rfl := Except.ok.inj h
      rw [transposeHost, transposeHost, transposeMatrix_map widen_default]
      cases transposeMatrix values rows cols <;> rfl

/-- A loaded tensor with the name of the head, in terms of the table with the same contents. -/
theorem loadKnown_copied {embedding : TensorView} {table : HostTensor}
    (h : loadKnown metadata executionDtype embedding ⟨"token_embedding",
      [metadata.vocabSize, metadata.hiddenSize], [metadata.vocabSize, metadata.hiddenSize], false⟩ =
        .ok table) (name : String) :
    loadKnown metadata executionDtype { embedding with name := name } ⟨"lm_head",
      [metadata.vocabSize, metadata.hiddenSize], [metadata.hiddenSize, metadata.vocabSize], true⟩ =
        transposeHost table metadata.vocabSize metadata.hiddenSize := by
  rw [loadKnown] at h ⊢
  obtain ⟨_, hshape, h⟩ := Except.bind_eq_ok_iff.1 h
  obtain ⟨sourceDtype, hdtype, h⟩ := Except.bind_eq_ok_iff.1 h
  obtain ⟨_, hsource, h⟩ := Except.bind_eq_ok_iff.1 h
  obtain ⟨elements, helements, h⟩ := Except.bind_eq_ok_iff.1 h
  obtain ⟨host, hdecode, h⟩ := Except.bind_eq_ok_iff.1 h
  rw [Outcome.require_of _ (Outcome.require_eq_ok_iff.1 hshape), Except.ok_bind, hdtype,
    Except.ok_bind, Outcome.require_of _ (Outcome.require_eq_ok_iff.1 hsource), Except.ok_bind,
    helements, Except.ok_bind, hdecode, Except.ok_bind]
  exact (transposeHost_materialize h).symm

/-! ### Tied checkpoints -/

/-- Tensors with other names leave the head alone. -/
theorem head_of_outcome {views : List TensorView} {tensors tensors' : Tensors}
    (hviews : ∀ view ∈ views, view.name ≠ "lm_head.weight")
    (h : outcome metadata executionDtype views tensors = some tensors') :
    tensors' "lm_head" = tensors "lm_head" := by
  induction views using List.reverseRecOn generalizing tensors' with
  | nil => rw [← Option.some.inj h]
  | append_singleton views view ih =>
    rw [outcome_concat] at h
    obtain ⟨before, hbefore, h⟩ := Option.bind_eq_some_iff.1 h
    obtain ⟨x, hx, h⟩ := Option.bind_eq_some_iff.1 h
    rw [← ih (fun v hv => hviews v (List.mem_append_left _ hv)) hbefore]
    cases x with
    | none => rw [← Option.some.inj h]
    | some x =>
      obtain ⟨name, tensor⟩ := x
      have hname : name ≠ "lm_head" := by
        unfold loaded at hx
        cases hspec : tensorSpec view.name metadata with
        | none =>
          rw [hspec] at hx
          exact absurd hx nofun
        | some spec =>
          rw [hspec] at hx
          obtain ⟨host, -, hhost⟩ := Option.map_eq_some_iff.1 hx
          obtain ⟨rfl, -⟩ := Prod.mk.inj (Option.some.inj hhost)
          exact internalName_ne_head hspec
            (hviews view (List.mem_append_right _ List.mem_cons_self))
      rw [added_some] at h
      split_ifs at h
      rw [← Option.some.inj h, Function.update_of_ne hname.symm]

/-- A table among the tensors has been loaded. -/
theorem table_of_outcome {views : List TensorView} {tensors' : Tensors} {embedding : TensorView}
    (hname : embedding.name = "model.embed_tokens.weight") (hmem : embedding ∈ views)
    (h : outcome metadata executionDtype views (fun _ => none) = some tensors') :
    ∃ table, loadKnown metadata executionDtype embedding ⟨"token_embedding",
        [metadata.vocabSize, metadata.hiddenSize], [metadata.vocabSize, metadata.hiddenSize],
          false⟩ = .ok table ∧
      tensors' "token_embedding" =
        some ([metadata.vocabSize, metadata.hiddenSize], table) := by
  obtain ⟨before, after, rfl⟩ := List.append_of_mem hmem
  have hperm : (before ++ embedding :: after).Perm ((before ++ after) ++ [embedding]) :=
    List.perm_middle.trans (List.perm_append_singleton _ _).symm
  rw [outcome_perm hperm, outcome_concat] at h
  obtain ⟨rest, -, h⟩ := Option.bind_eq_some_iff.1 h
  obtain ⟨x, hx, h⟩ := Option.bind_eq_some_iff.1 h
  rw [loaded, hname, tensorSpec_embedding] at hx
  obtain ⟨table, htable, rfl⟩ := Option.map_eq_some_iff.1 hx
  refine ⟨table, ?_, ?_⟩
  · cases hload : loadKnown metadata executionDtype embedding _ with
    | error e =>
      rw [hload] at htable
      exact absurd htable nofun
    | ok table' =>
      rw [hload] at htable
      exact congrArg _ (Option.some.inj htable)
  · rw [added_some] at h
    split_ifs at h
    rw [← Option.some.inj h, Function.update_self]

/-- The head of the tied checkpoint is the transposed table. -/
theorem addTied_eq {tensors : Tensors} {shape : List ℕ} {table : HostTensor}
    (htied : metadata.tieWordEmbeddings = true) (hhead : tensors "lm_head" = none)
    (htable : tensors "token_embedding" = some (shape, table)) :
    addTiedLmHeadIfNeeded metadata tensors =
      transposeHost table metadata.vocabSize metadata.hiddenSize >>= fun tied =>
        .ok (Function.update tensors "lm_head"
          (some ([metadata.hiddenSize, metadata.vocabSize], tied))) := by
  rw [addTiedLmHeadIfNeeded, hhead, htied, htable, if_neg (by decide)]
  simp only [Outcome.okOr, Except.ok_bind, insertTensor, hhead]

/-- The elements of a transposed matrix, and the matrix transposed back. -/
private theorem transposeMatrix_spec {α : Type} [Inhabited α] {values output : List α}
    {rows cols : ℕ} (h : transposeMatrix values rows cols = .ok output) (bits : α → ℕ)
    (hbits : bits default = 0) :
    transposeMatrix output cols rows = .ok values ∧
      ∀ row < rows, ∀ col < cols, (output.map bits).getD (col * rows + row) 0 =
        (values.map bits).getD (row * cols + col) 0 := by
  obtain ⟨hfits, hlength, rfl⟩ := transposeMatrix_eq_ok_iff.1 h
  refine ⟨transposeMatrix_eq_ok_iff.2 ⟨by rwa [Nat.mul_comm],
    by rw [length_transposed, Nat.mul_comm], (transposed_transposed hlength _).symm⟩, ?_⟩
  intro row hrow col hcol
  rw [map_transposed, hbits, getD_transposed hrow hcol]

/-- The elements of a transposed tensor, and the tensor transposed back. -/
theorem transposeHost_spec {table head : HostTensor} {rows cols : ℕ}
    (h : transposeHost table rows cols = .ok head) :
    transposeHost head cols rows = .ok table ∧ ∀ row < rows, ∀ col < cols,
      head.bits.getD (col * rows + row) 0 = table.bits.getD (row * cols + col) 0 := by
  cases table with
  | f32 values =>
    obtain ⟨output, houtput, hhead⟩ := Except.bind_eq_ok_iff.1 h
    obtain rfl := Except.ok.inj hhead
    obtain ⟨hback, helements⟩ := transposeMatrix_spec houtput Binary.toBits (by decide)
    rw [transposeHost, hback]
    exact ⟨rfl, helements⟩
  | bf16 values =>
    obtain ⟨output, houtput, hhead⟩ := Except.bind_eq_ok_iff.1 h
    obtain rfl := Except.ok.inj hhead
    obtain ⟨hback, helements⟩ := transposeMatrix_spec houtput UInt16.toNat rfl
    rw [transposeHost, hback]
    exact ⟨rfl, helements⟩

theorem toBits_widen (word : UInt16) : (widen word).toBits = word.toNat * 2 ^ 16 := by
  have hlt := word.toNat_lt
  exact F32.toBits_ofBits (by omega)

/-- The elements of a halfword tensor that is widened when it is loaded. -/
theorem bits_of_loadKnown {view : TensorView} {spec : TensorSpec} {table : HostTensor}
    (h : loadKnown metadata executionDtype view spec = .ok table) (hspec : spec.transpose = false)
    (hsource : metadata.weightDtype = .bf16) (hexecution : executionDtype = .f32) :
    table.bits = (halfwords view.data).map fun word => word.toNat * 2 ^ 16 := by
  rw [loadKnown] at h
  obtain ⟨_, -, h⟩ := Except.bind_eq_ok_iff.1 h
  obtain ⟨sourceDtype, hdtype, h⟩ := Except.bind_eq_ok_iff.1 h
  obtain ⟨_, hdeclared, h⟩ := Except.bind_eq_ok_iff.1 h
  obtain ⟨elements, -, h⟩ := Except.bind_eq_ok_iff.1 h
  obtain ⟨host, hdecode, hlast⟩ := Except.bind_eq_ok_iff.1 h
  obtain rfl := (Outcome.require_eq_ok_iff.1 hdeclared).trans hsource
  have horient : orient spec host = .ok host := by rw [orient, hspec, if_neg Bool.false_ne_true]
  rw [horient, Except.ok_bind, hexecution] at hlast
  obtain ⟨_, -, hdecode⟩ := Except.bind_eq_ok_iff.1 hdecode
  obtain ⟨_, -, hdecode⟩ := Except.bind_eq_ok_iff.1 hdecode
  cases hview : view.dtype with
  | f32 =>
    rw [hview] at hdtype
    exact absurd (Except.ok.inj hdtype) nofun
  | other name bytes =>
    rw [hview] at hdtype
    exact absurd hdtype nofun
  | bf16 =>
    rw [hview] at hdecode
    obtain rfl := Except.ok.inj hdecode
    obtain rfl := Except.ok.inj hlast
    rw [HostTensor.bits, List.map_map]
    exact List.map_congr_left fun word _ => toBits_widen word

/-- A tied checkpoint loads as a checkpoint with a copied head does, wherever the copy stands and
whatever its own configuration says about ties. Its head is the transposed table, bit for bit, and
transposes back to it; the elements of a table that is widened when it is loaded are those of the
file, shifted up. -/
theorem tied_eq_copied (metadata : SafetensorsMetadata) (executionDtype : WeightDType)
    (tied : Bool) (shards copied : List (List TensorView)) (embedding : TensorView)
    (htied : metadata.tieWordEmbeddings = true)
    (hname : embedding.name = "model.embed_tokens.weight") (hmem : embedding ∈ shards.flatten)
    (hhead : ∀ view ∈ shards.flatten, view.name ≠ "lm_head.weight")
    (hcopied : copied.flatten.Perm ({ embedding with name := "lm_head.weight" } ::
      shards.flatten)) :
    (loadTensors { metadata with tieWordEmbeddings := tied } executionDtype copied).toOption =
        (loadTensors metadata executionDtype shards).toOption ∧
    ∀ tensors, loadTensors metadata executionDtype shards = .ok tensors →
      ∃ table head,
        tensors "token_embedding" = some ([metadata.vocabSize, metadata.hiddenSize], table) ∧
        tensors "lm_head" = some ([metadata.hiddenSize, metadata.vocabSize], head) ∧
        transposeHost head metadata.hiddenSize metadata.vocabSize = .ok table ∧
        (∀ token < metadata.vocabSize, ∀ unit < metadata.hiddenSize,
          head.bits.getD (unit * metadata.vocabSize + token) 0 =
            table.bits.getD (token * metadata.hiddenSize + unit) 0) ∧
        (metadata.weightDtype = .bf16 → executionDtype = .f32 →
          table.bits = (halfwords embedding.data).map fun word => word.toNat * 2 ^ 16) := by
  have houtcome : ∀ views tensors,
      outcome { metadata with tieWordEmbeddings := tied } executionDtype views tensors =
        outcome metadata executionDtype views tensors := fun _ _ => rfl
  have hconcat : copied.flatten.Perm (shards.flatten ++
      [{ embedding with name := "lm_head.weight" }]) :=
    hcopied.trans (List.perm_append_singleton _ _).symm
  rw [toOption_loadTensors, toOption_loadTensors, houtcome, outcome_perm hconcat, outcome_concat]
  cases hviews : outcome metadata executionDtype shards.flatten fun _ => none with
  | none =>
    refine ⟨rfl, fun tensors htensors => ?_⟩
    have hnone : (loadTensors metadata executionDtype shards).toOption = none := by
      rw [toOption_loadTensors, hviews]
      rfl
    rw [htensors] at hnone
    exact absurd hnone nofun
  | some before =>
    obtain ⟨table, hknown, htable⟩ := table_of_outcome hname hmem hviews
    have hfree : before "lm_head" = none := head_of_outcome hhead hviews
    have hcopy := loadKnown_copied hknown "lm_head.weight"
    have htie := addTied_eq htied hfree htable
    have hloaded : loaded metadata executionDtype { embedding with name := "lm_head.weight" } =
        (transposeHost table metadata.vocabSize metadata.hiddenSize).toOption.map fun head =>
          some ("lm_head", [metadata.hiddenSize, metadata.vocabSize], head) := by
      rw [loaded, tensorSpec_head, ← hcopy]
    have hrun : (loadTensors metadata executionDtype shards).toOption = _ :=
      (toOption_loadTensors shards).trans (by rw [hviews, Option.bind_some, htie])
    refine ⟨?_, fun tensors htensors => ?_⟩
    · rw [Option.bind_some, hloaded, Option.bind_some, htie]
      cases transposeHost table metadata.vocabSize metadata.hiddenSize with
      | error e => rfl
      | ok head =>
        have hinsert : added before (some ("lm_head",
            [metadata.hiddenSize, metadata.vocabSize], head)) =
              some (Function.update before "lm_head"
                (some ([metadata.hiddenSize, metadata.vocabSize], head))) := by
          rw [added_some, hfree, if_neg (by decide)]
        change (added before (some (_, _, head))).bind _ = some _
        rw [hinsert, Option.bind_some, addTiedLmHeadIfNeeded, Function.update_self,
          if_pos (.inl rfl)]
        rfl
    · cases hhost : transposeHost table metadata.vocabSize metadata.hiddenSize with
      | error e =>
        rw [htensors, hhost] at hrun
        exact absurd hrun nofun
      | ok head =>
        rw [htensors, hhost] at hrun
        obtain rfl := Option.some.inj hrun
        obtain ⟨hback, helements⟩ := transposeHost_spec hhost
        refine ⟨table, head, ?_, Function.update_self _ _ _, hback, helements,
          bits_of_loadKnown hknown rfl⟩
        rw [Function.update_of_ne (by decide), htable]

/-- The table of two tokens of two units. -/
def twoTokens : TensorView :=
  ⟨"model.embed_tokens.weight", .bf16, [2, 2], [0x80, 0x3F, 0, 0x40, 0x40, 0x40, 0x80, 0x40]⟩

/-- The configuration of a tied checkpoint of two tokens. -/
def tiedMetadata : SafetensorsMetadata where
  numHiddenLayers := 1
  hiddenSize := 2
  intermediateSize := 1
  numKeyValueHeads := 1
  headDim := 2
  vocabSize := 2
  tieWordEmbeddings := true
  weightDtype := .bf16
  keyValueWidth_le := by decide
  hiddenSize_lt := by decide

/-- The agreement for two tokens, with the copied head in a file of its own. -/
theorem tied_eq_copied_two :
    (loadTensors { tiedMetadata with tieWordEmbeddings := false } .f32
        [[{ twoTokens with name := "lm_head.weight" }], [twoTokens]]).toOption =
      (loadTensors tiedMetadata .f32 [[twoTokens]]).toOption :=
  (tied_eq_copied tiedMetadata .f32 false [[twoTokens]]
    [[{ twoTokens with name := "lm_head.weight" }], [twoTokens]] twoTokens rfl rfl
    (List.mem_singleton_self _) (fun view hview => by
      rw [List.mem_singleton.1 hview]
      decide) (List.Perm.refl _)).1

end Safetensors

end NNIS
