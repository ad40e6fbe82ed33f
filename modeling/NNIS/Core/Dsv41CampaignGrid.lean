import Mathlib.Data.List.ProdSigma
import NNIS.Core.Dsv41Campaign
import NNIS.Sequence.Distinct

/-!
# The grid of a campaign

The places a campaign preregisters are the triples of an arm, a context length and a decode length.
They are distinct because the validated axes are, and a validated record has exactly one cell at
each: the record has as many cells as the product of the axes says, in 64 bits, and each place is
met, so that the product did not wrap.

## Main definitions

* `Dsv41CampaignPreregistrationV1.grid`, `CampaignCellV1.point`.

## Main results

* `Dsv41CampaignPreregistrationV1.nodup_grid` — the places of a campaign are distinct.
* `validateDsv41EvidenceStructure_perm` — the outcome does not depend on the order of the cells.
* `validateDsv41EvidenceStructure_grid` — an accepted record is in bijection with the grid.
-/

set_option autoImplicit false

namespace NNIS

/-- The place of a cell. -/
def CampaignCellV1.point (cell : CampaignCellV1) : String × UInt32 × UInt32 :=
  (cell.armId, cell.contextLength, cell.decodeLength)

theorem CampaignCellV1.matches_eq (cell : CampaignCellV1) (arm : CampaignArmV1)
    (contextLength decodeLength : UInt32) :
    cell.Matches arm contextLength decodeLength =
      (cell.point == (arm.armId, contextLength, decodeLength)) := by
  rw [Matches, point, Bool.and_assoc]
  rfl

namespace Dsv41CampaignPreregistrationV1

variable (preregistration : Dsv41CampaignPreregistrationV1)

/-- The preregistered places. -/
def grid : List (String × UInt32 × UInt32) :=
  preregistration.arms.map CampaignArmV1.armId ×ˢ
    (preregistration.contextLengths ×ˢ preregistration.decodeLengths)

theorem length_grid : preregistration.grid.length =
    preregistration.arms.length *
      (preregistration.contextLengths.length * preregistration.decodeLengths.length) := by
  rw [grid, List.length_product, List.length_product, List.length_map]

theorem mem_grid_iff {place : String × UInt32 × UInt32} :
    place ∈ preregistration.grid ↔ (∃ arm ∈ preregistration.arms, arm.armId = place.1) ∧
      place.2.1 ∈ preregistration.contextLengths ∧ place.2.2 ∈ preregistration.decodeLengths := by
  obtain ⟨armId, contextLength, decodeLength⟩ := place
  rw [grid, List.mem_product, List.mem_product, List.mem_map]

/-! ### The axes of a validated preregistration -/

private theorem validateLengths_spec {field : String} {values : List UInt32}
    (h : validateLengths field values = .ok ⟨⟩) : values.Nodup ∧ values ≠ [] := by
  cases values with
  | nil => exact absurd h nofun
  | cons first rest =>
    have hwindows := (Outcome.require_eq_ok_iff.1 h).2
    have : IsTrans UInt32 (· < ·) := ⟨fun _ _ _ => UInt32.lt_trans⟩
    have : Std.Irrefl (α := UInt32) (· < ·) := ⟨UInt32.lt_irrefl⟩
    exact ⟨nodup_of_forall_windows (· < ·) hwindows, nofun⟩

/-- Accepted arms have distinct names. -/
private theorem nodup_armId {arms : List CampaignArmV1} {state : Option String × ℕ}
    (h : arms.zipIdx.foldlM (validateArm arms) (none, 0) = .ok state) :
    (arms.map CampaignArmV1.armId).Nodup := by
  have hseen := Outcome.foldlM_invariant (fun i _ => ∀ j, j < i → ∀ arm, arms[j]? = some arm →
    ∀ other ∈ arms.take j, other.armId ≠ arm.armId) (fun i hi s s' hinv hbody => ?_)
    (fun j hj => absurd hj (Nat.not_lt_zero j)) h
  · rw [List.length_zipIdx] at hseen
    rw [List.Nodup, List.pairwise_map, List.pairwise_iff_getElem]
    intro i j hi hj hij
    refine hseen j hj arms[j] (List.getElem?_eq_getElem hj) arms[i] ?_
    exact List.mem_take_iff_getElem.2 ⟨i, by omega, rfl⟩
  · intro j hj arm harm
    rcases Nat.lt_succ_iff_lt_or_eq.1 hj with hprev | rfl
    · exact hinv j hprev arm harm
    · rw [List.length_zipIdx] at hi
      simp only [validateArm, List.getElem_zipIdx, Nat.zero_add, Except.bind_eq_ok_iff,
        Outcome.require_eq_ok_iff] at hbody
      obtain ⟨_, -, _, hfresh, -⟩ := hbody
      rw [List.getElem?_eq_getElem hi] at harm
      obtain rfl := Option.some.inj harm
      exact hfresh

private theorem axes_spec : (preregistration.arms.map CampaignArmV1.armId).Nodup ∧
    preregistration.contextLengths.Nodup ∧ preregistration.decodeLengths.Nodup ∧
      preregistration.decodeLengths ≠ [] := by
  have h := preregistration.valid
  simp only [Dsv41CampaignPreregistrationFieldsV1.validate, Except.bind_eq_ok_iff,
    Prod.exists] at h
  obtain ⟨_, -, _, -, _, -, _, -, _, -, _, -, _, -, _, hcontexts, _, hdecodes, _, -, _, -, _, -,
    _, _, harms, -⟩ := h
  have hdecodes := validateLengths_spec hdecodes
  exact ⟨nodup_armId harms, (validateLengths_spec hcontexts).1, hdecodes⟩

/-- The places of a campaign are distinct. -/
theorem nodup_grid : preregistration.grid.Nodup := by
  obtain ⟨harms, hcontexts, hdecodes, -⟩ := preregistration.axes_spec
  exact harms.product (hcontexts.product hdecodes)

end Dsv41CampaignPreregistrationV1

section Cells

variable (preregistration : Dsv41CampaignPreregistrationV1)

/-! ### The order of the cells -/

/-- The check of a place does not depend on the order of the cells. -/
theorem validateGridCell_perm {cells cells' : List CampaignCellV1} (h : cells'.Perm cells)
    (arm : CampaignArmV1) (contextLength decodeLength : UInt32) :
    validateGridCell preregistration cells' arm contextLength decodeLength =
      validateGridCell preregistration cells arm contextLength decodeLength := by
  unfold validateGridCell
  have hfilter := h.filter fun cell => cell.Matches arm contextLength decodeLength
  generalize cells'.filter (fun cell => cell.Matches arm contextLength decodeLength) = l' at hfilter
  generalize cells.filter (fun cell => cell.Matches arm contextLength decodeLength) = l at hfilter
  match l, l', hfilter with
  | [], l', hfilter => rw [hfilter.eq_nil]
  | [cell], l', hfilter => rw [List.perm_singleton.1 hfilter]
  | _ :: _ :: _, [], hfilter => exact absurd hfilter.length_eq nofun
  | _ :: _ :: _, [_], hfilter => exact absurd hfilter.length_eq nofun
  | _ :: _ :: _, _ :: _ :: _, _ => rfl

/-- The outcome of the validation does not depend on the order of the cells. -/
theorem validateDsv41EvidenceStructure_perm (evidence : Dsv41CampaignEvidenceV1)
    {cells : List CampaignCellV1} (h : cells.Perm evidence.cells) :
    validateDsv41EvidenceStructure preregistration { evidence with cells } =
      validateDsv41EvidenceStructure preregistration evidence := by
  simp only [validateDsv41EvidenceStructure, h.length_eq, validateGridCell_perm preregistration h]

/-! ### Accepted records -/

/-- Each place of an accepted record has one cell, and the cell is valid. -/
private theorem exists_filter_eq {evidence : Dsv41CampaignEvidenceV1}
    (h : validateDsv41EvidenceStructure preregistration evidence = .ok ⟨⟩) :
    evidence.cells.length = preregistration.requiredCells ∧
      ∀ place ∈ preregistration.grid, ∃ cell,
        (evidence.cells.filter fun cell => cell.point == place) = [cell] ∧
          validateCell preregistration cell = .ok ⟨⟩ := by
  simp only [validateDsv41EvidenceStructure, Except.bind_eq_ok_iff, Outcome.require_eq_ok_iff,
    Outcome.forM_eq_ok_iff] at h
  obtain ⟨_, -, _, -, _, -, _, -, _, -, _, -, _, -, _, -, _, hcount, hcells⟩ := h
  refine ⟨hcount, fun place hplace => ?_⟩
  obtain ⟨⟨arm, harm, hid⟩, hcontext, hdecode⟩ := preregistration.mem_grid_iff.1 hplace
  have hcell := hcells arm harm place.2.1 hcontext place.2.2 hdecode
  have hplaceEq : (arm.armId, place.2.1, place.2.2) = place := by rw [hid]
  unfold validateGridCell at hcell
  simp only [CampaignCellV1.matches_eq, hplaceEq] at hcell
  match hfilter : evidence.cells.filter fun cell => cell.point == place with
  | [] => rw [hfilter] at hcell; exact absurd hcell nofun
  | [cell] => rw [hfilter] at hcell; exact ⟨cell, hfilter, hcell⟩
  | _ :: _ :: _ => rw [hfilter] at hcell; exact absurd hcell nofun

/-- The number of cells of an accepted record is the number of places: the product of the axes did
not wrap, since every place is met. -/
private theorem length_cells {evidence : Dsv41CampaignEvidenceV1}
    (hcount : evidence.cells.length = preregistration.requiredCells)
    (hle : preregistration.grid.length ≤ evidence.cells.length) :
    evidence.cells.length = preregistration.grid.length := by
  have hdecodes := List.length_pos_of_ne_nil preregistration.axes_spec.2.2.2
  rw [preregistration.length_grid, ← Nat.mul_assoc] at hle ⊢
  have hlt : preregistration.arms.length * preregistration.contextLengths.length *
      preregistration.decodeLengths.length < wordLimit := by
    refine Nat.lt_of_le_of_lt hle ?_
    rw [hcount]
    exact Nat.mod_lt _ (Nat.two_pow_pos 64)
  have hlt' : preregistration.arms.length * preregistration.contextLengths.length < wordLimit :=
    Nat.lt_of_le_of_lt (Nat.le_mul_of_pos_right _ hdecodes) hlt
  rw [hcount, Dsv41CampaignPreregistrationV1.requiredCells, Nat.mod_eq_of_lt hlt',
    Nat.mod_eq_of_lt hlt]

/-- The grid of validated evidence.

* The cells of an accepted record are in bijection with the preregistered places, which are
  distinct: each place has exactly one cell, and no cell is stray or duplicated.
* Each cell of an accepted record is valid, and its arm is a preregistered one.
* Acceptance and the conclusion drawn do not depend on the order of the cells. -/
theorem validateDsv41EvidenceStructure_grid (evidence : Dsv41CampaignEvidenceV1) :
    (validateDsv41EvidenceStructure preregistration evidence = .ok ⟨⟩ →
      preregistration.grid.Nodup ∧
      (evidence.cells.map CampaignCellV1.point).Perm preregistration.grid ∧
      Set.BijOn (fun i : Fin evidence.cells.length => (evidence.cells.get i).point) Set.univ
        {place | place ∈ preregistration.grid} ∧
      ∀ cell ∈ evidence.cells, validateCell preregistration cell = .ok ⟨⟩ ∧
        ∃ arm ∈ preregistration.arms, arm.armId = cell.armId) ∧
    ∀ cells : List CampaignCellV1, cells.Perm evidence.cells →
      validateDsv41EvidenceStructure preregistration { evidence with cells } =
        validateDsv41EvidenceStructure preregistration evidence ∧
      validateDsv41Evidence preregistration { evidence with cells } =
        validateDsv41Evidence preregistration evidence := by
  refine ⟨fun h => ?_, fun cells hperm => ?_⟩
  · obtain ⟨hcount, hcells⟩ := exists_filter_eq preregistration h
    have hmet : ∀ place ∈ preregistration.grid,
        (evidence.cells.filter fun cell => cell.point == place) ≠ [] := by
      intro place hplace hnil
      obtain ⟨cell, hcell, -⟩ := hcells place hplace
      exact absurd (hnil.symm.trans hcell) nofun
    have hle := (subperm_of_filter_ne_nil preregistration.nodup_grid hmet).length_le
    rw [List.length_map] at hle
    have hlength := length_cells preregistration hcount hle
    have hperm := perm_of_filter_ne_nil preregistration.nodup_grid hmet hlength.le
    refine ⟨preregistration.nodup_grid, hperm, bijOn_get_of_perm preregistration.nodup_grid hperm,
      fun cell hcell => ?_⟩
    have hplace : cell.point ∈ preregistration.grid :=
      hperm.mem_iff.1 (List.mem_map.2 ⟨cell, hcell, rfl⟩)
    obtain ⟨cell', hfilter, hvalid⟩ := hcells _ hplace
    have hmem : cell ∈ evidence.cells.filter fun c => c.point == cell.point :=
      List.mem_filter.2 ⟨hcell, beq_self_eq_true _⟩
    rw [hfilter, List.mem_singleton] at hmem
    exact ⟨hmem ▸ hvalid, (preregistration.mem_grid_iff.1 hplace).1⟩
  · have hstructure := validateDsv41EvidenceStructure_perm preregistration evidence hperm
    exact ⟨hstructure, by rw [validateDsv41Evidence, validateDsv41Evidence, hstructure]⟩

end Cells

end NNIS
