import NNIS.Memory.Lane
import NNIS.Model.ReconstructionError
import NNIS.Rt.Driver
import NNIS.Semantics.Outcome

/-!
# The loops of the reference codecs

A reference codec of `nnis-model` passes over a tensor twice: once for its largest magnitude,
refusing a value that is not finite, and once to pack a code for every value and to report how far
the value is from what its code stands for.

## Main definitions

* `maxAbsOf`, `maxUnits` — the largest magnitude.
* `ReconstructionError.over`, `packReport` — the codes and the report.

## Main results

* `exists_maxAbsOf` — finite values have a largest magnitude.
* `packReport_eq`, `ReconstructionError.over_bounded` — the codes and the report, each on its own.
-/

set_option autoImplicit false

namespace NNIS

/-! ### The largest magnitude -/

/-- The largest magnitude of finite values. -/
def maxAbsOf (refused : ℕ → NnisError) (values : List F32) : Except NnisError F32 :=
  values.zipIdx.foldlM (fun maxAbs (value, index) =>
    if value.isFinite then .ok (maxAbs.max value.abs) else .error (refused index)) (.zero false)

/-- The largest magnitude of values, in smallest positive magnitudes. -/
def maxUnits (values : List F32) : ℕ := values.foldr (fun value units => max value.units units) 0

theorem units_le_maxUnits {values : List F32} {value : F32} (h : value ∈ values) :
    value.units ≤ maxUnits values := by
  induction values with
  | nil => exact absurd h List.not_mem_nil
  | cons head values ih =>
    rcases List.mem_cons.1 h with rfl | h
    · exact le_max_left _ _
    · exact (ih h).trans (le_max_right _ _)

theorem maxUnits_le {values : List F32} {bound : ℕ} (h : ∀ value ∈ values, value.units ≤ bound) :
    maxUnits values ≤ bound := by
  induction values with
  | nil => exact Nat.zero_le bound
  | cons head values ih =>
    exact max_le (h head List.mem_cons_self) (ih fun value hv =>
      h value (List.mem_cons_of_mem _ hv))

theorem exists_units_eq_maxUnits {values : List F32} (h : 0 < maxUnits values) :
    ∃ value ∈ values, value.units = maxUnits values := by
  induction values with
  | nil => exact absurd h (Nat.lt_irrefl 0)
  | cons head values ih =>
    change ∃ value ∈ head :: values, value.units = max head.units (maxUnits values)
    rcases le_total (maxUnits values) head.units with hle | hle
    · exact ⟨head, List.mem_cons_self, (max_eq_left hle).symm⟩
    · rw [max_eq_right hle]
      have hmax : maxUnits (head :: values) = maxUnits values := max_eq_right hle
      obtain ⟨value, hvalue, hunits⟩ := ih (hmax ▸ h)
      exact ⟨value, List.mem_cons_of_mem _ hvalue, hunits⟩

private theorem maxAbsOf_concat (refused : ℕ → NnisError) (values : List F32) (value : F32) :
    maxAbsOf refused (values ++ [value]) = maxAbsOf refused values >>= fun maxAbs =>
      if value.isFinite then .ok (maxAbs.max value.abs) else .error (refused values.length) := by
  rw [maxAbsOf, List.zipIdx_append, List.foldlM_append, Nat.zero_add]
  refine congrArg _ (funext fun maxAbs => ?_)
  exact bind_pure _

private theorem max_eq_or (x y : F32) : x.max y = x ∨ x.max y = y := by
  unfold Binary.max
  split_ifs
  · exact .inr rfl
  · exact .inl rfl
  · exact .inr rfl
  · exact .inl rfl

/-- Finite values have a largest magnitude, which is finite. -/
theorem exists_maxAbsOf (refused : ℕ → NnisError) {values : List F32}
    (hfinite : ∀ value ∈ values, value.isFinite = true) :
    ∃ maxAbs, maxAbsOf refused values = .ok maxAbs ∧ maxAbs.isFinite = true ∧
      maxAbs.negative = false ∧ (∀ value ∈ values, value.magnitude ≤ maxAbs.magnitude) ∧
      maxAbs.units = maxUnits values := by
  induction values using List.reverseRecOn with
  | nil => exact ⟨_, rfl, rfl, rfl, fun _ h => absurd h List.not_mem_nil, rfl⟩
  | append_singleton values value ih =>
    obtain ⟨maxAbs, hok, hmax, hsign, hbound, hunits⟩ :=
      ih fun v hv => hfinite v (List.mem_append_left _ hv)
    have hvalue := hfinite value (List.mem_append_right _ List.mem_cons_self)
    have hle := Binary.magnitude_le_max hmax ((Binary.isFinite_abs value).trans hvalue) hsign
      (Binary.negative_abs value)
    have hbound' : ∀ v ∈ values ++ [value], v.magnitude ≤ (maxAbs.max value.abs).magnitude := by
      intro v hv
      rcases List.mem_append.1 hv with hv | hv
      · exact (hbound v hv).trans hle.1
      · exact List.mem_singleton.1 hv ▸ hle.2
    refine ⟨maxAbs.max value.abs, ?_, Binary.isFinite_max hmax hvalue,
      Binary.negative_max hsign (Binary.negative_abs value), hbound', le_antisymm ?_ ?_⟩
    · rw [maxAbsOf_concat, hok, Except.ok_bind, if_pos hvalue]
    · -- The greater one is the magnitude so far or that of the last value.
      rcases max_eq_or maxAbs value.abs with heq | heq <;> rw [heq]
      · rw [hunits]
        exact maxUnits_le fun v hv => units_le_maxUnits (List.mem_append_left _ hv)
      · have hmem : value ∈ values ++ [value] := List.mem_append_right _ List.mem_cons_self
        exact (units_le_maxUnits hmem : value.units ≤ _)
    · exact maxUnits_le fun v hv => Binary.units_le_of_magnitude_le (hbound' v hv)

/-! ### The codes and the report -/

/-- The report over values. -/
def ReconstructionError.over (restore : F32 → F32) (values : List F32) : ReconstructionError :=
  values.foldl (fun report value => report.observe value (restore value)) .none

/-- The payload of values and the report of their errors. -/
def packReport (width lanes packedLen : ℕ) (code : F32 → UInt8) (restore : F32 → F32)
    (values : List F32) : List UInt8 × ReconstructionError :=
  values.zipIdx.foldl (fun (packed, report) (value, index) =>
    (packed.modify (index / lanes) (orLane width (index % lanes) (code value)),
      report.observe value (restore value))) (List.replicate packedLen 0, .none)

private theorem over_concat (restore : F32 → F32) (values : List F32) (value : F32) :
    ReconstructionError.over restore (values ++ [value]) =
      (ReconstructionError.over restore values).observe value (restore value) := by
  rw [ReconstructionError.over, List.foldl_append]
  rfl

/-- The codes and the report of the loop, each on its own. -/
theorem packReport_eq (width lanes packedLen : ℕ) (code : F32 → UInt8) (restore : F32 → F32)
    (values : List F32) : packReport width lanes packedLen code restore values =
      (packLanes width lanes packedLen (values.map code), .over restore values) := by
  induction values using List.reverseRecOn with
  | nil => rfl
  | append_singleton values value ih =>
    rw [packReport, List.zipIdx_append, List.foldl_append, ← packReport, ih, List.map_append,
      List.map_singleton, packLanes_concat, List.length_map, over_concat, Nat.zero_add]
    rfl

/-- The report over values that are restored within the finite range is accepted. -/
theorem ReconstructionError.over_bounded {restore : F32 → F32} {values : List F32}
    (hfinite : ∀ value ∈ values, value.isFinite = true) {p : ℕ} (hp : p < binary32.infinity)
    (hrestore : ∀ value ∈ values, (restore value).isFinite = true ∧
      (value.signedUnits - (restore value).signedUnits).natAbs ≤ binary32.units p)
    (hlength : values.length ≤ 2 ^ 61) :
    (ReconstructionError.over restore values).Bounded values.length := by
  induction values using List.reverseRecOn with
  | nil => exact ReconstructionError.none_bounded
  | append_singleton values value ih =>
    rw [List.length_append, List.length_singleton] at hlength ⊢
    have hmem : value ∈ values ++ [value] := List.mem_append_right _ List.mem_cons_self
    rw [over_concat]
    exact ReconstructionError.observe_bounded
      (ih (fun v hv => hfinite v (List.mem_append_left _ hv))
        (fun v hv => hrestore v (List.mem_append_left _ hv)) (by omega))
      (by omega) (hfinite value hmem) (hrestore value hmem).1 hp (hrestore value hmem).2

end NNIS
