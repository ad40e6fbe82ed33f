import Mathlib.Order.Bounds.Basic
import Mathlib.Tactic.FieldSimp
import NNIS.Cpu.Fp4Projection
import NNIS.Numeric.Nearest

/-!
# FP4 under powers of two

Under the least power of two whose six-fold covers a group the values of the projection are exact
multiples of half the power. The largest of them has the magnitude 3, 4 or 6 unless the power is the
least of all, so the projection of the projection has the same power or half of it, and the
multiples are magnitudes of codes again.

## Main definitions

* `IsLeastExponent`, `IsNearestCode`, `GroupOverflows` — what the power, a code and an overflow of a
  group should be.

## Main results

* `CpuFp4E2M1KvBlockV1.Encodes.projection_projection` — the projection is idempotent.
* `CpuFp4E2M1KvBlockV1.encode_decoded` — encoding what was decoded gives the same words.
* `CpuFp4E2M1KvBlockV1.e8m0_encode_spec` — the powers, the codes and the overflows of encoding.
-/

set_option autoImplicit false

namespace NNIS

/-! ### Exact multiples -/

private theorem fp4Halves_zero : fp4Halves[0]! = 0 := rfl

/-- A magnitude that is that of a code lies in the cell of the code. -/
theorem inCell_of_eq {v s code : ℕ} (hcode : code < 8) (hs : 0 < s)
    (h : 2 * v = fp4Halves[code]! * s) : InCell v s code where
  lt_eight := hcode
  lower c hc := by
    have hlt : fp4Halves[c]! * s < fp4Halves[code]! * s :=
      Nat.mul_lt_mul_of_pos_right (fp4Halves_strictMono (by omega) hcode) hs
    rw [Nat.add_mul]
    exact Or.inl (by omega)
  upper hnext := by
    have hlt : fp4Halves[code]! * s < fp4Halves[code + 1]! * s :=
      Nat.mul_lt_mul_of_pos_right (fp4Halves_strictMono (Nat.lt_succ_self code) hnext) hs
    rw [Nat.add_mul]
    exact Or.inl (by omega)

/-- A finite multiple of half a power of two is exact. -/
theorem units_round_halves {code e : ℕ} (hcode : code < 8)
    (h : binary32.round (fp4Halves[code]! * 2 ^ (e + 22)) 2 < binary32.infinity) :
    binary32.units (binary32.round (fp4Halves[code]! * 2 ^ (e + 22)) 2) =
      fp4Halves[code]! * 2 ^ (e + 21) := by
  have hle := fp4Halves_le ⟨code, hcode⟩
  have hdouble : fp4Halves[code]! * 2 ^ (e + 22) = fp4Halves[code]! * 2 ^ (e + 21) * 2 := by
    rw [Nat.mul_assoc, ← Nat.pow_succ]
  rw [hdouble] at h ⊢
  exact Format.units_round_exact (Nat.lt_of_le_of_lt hle (by decide)) Nat.two_pos h

/-! ### The power of the projection -/

/-- The largest magnitude of a group is not small against the least power that covers it. -/
private theorem six_le_halves {amax code : ℕ} (hamax : amax < 2 ^ 277)
    (hleast : 0 < leastExponent amax) (hcell : InCell amax (2 ^ (leastExponent amax + 22)) code) :
    6 ≤ fp4Halves[code]! := by
  have hnot : ¬ covers amax (leastExponent amax - 1) := fun h => by
    have hle := (covers_iff_leastExponent_le hamax).1 h
    omega
  rw [covers, show leastExponent amax - 1 + 22 = leastExponent amax + 21 by omega] at hnot
  rw [show leastExponent amax + 22 = leastExponent amax + 21 + 1 by omega, Nat.pow_succ] at hcell
  generalize 2 ^ (leastExponent amax + 21) = s at *
  by_contra hlt
  have hall : ∀ code < 8, fp4Halves[code]! < 6 →
      code + 1 < 8 ∧ fp4Halves[code]! + fp4Halves[code + 1]! ≤ 10 := by decide
  obtain ⟨hnext, hsum⟩ := hall code hcell.lt_eight (Nat.not_le.1 hlt)
  have hupper := hcell.upper hnext
  have hmul := Nat.mul_le_mul_right (s * 2) hsum
  omega

/-- The multiples of half the least power that covers a group are magnitudes of codes under the
least power that covers the greatest of them. -/
private theorem exists_code_of_projection {L top code : ℕ} (htop : top < 8)
    (hlarge : L = 0 ∨ 6 ≤ fp4Halves[top]!) (hle : fp4Halves[code]! ≤ fp4Halves[top]!)
    (hcode : code < 8) (hbound : fp4Halves[top]! * 2 ^ (L + 21) < 2 ^ 277) :
    ∃ code' < 8, fp4Halves[code']! * 2 ^ (leastExponent (fp4Halves[top]! * 2 ^ (L + 21)) + 22) =
      fp4Halves[code]! * 2 ^ (L + 22) := by
  set L' := leastExponent (fp4Halves[top]! * 2 ^ (L + 21)) with hL'
  have hcovers : ∀ {e}, covers (fp4Halves[top]! * 2 ^ (L + 21)) e ↔ L' ≤ e :=
    covers_iff_leastExponent_le hbound
  have htwelve := fp4Halves_le ⟨top, htop⟩
  have hleL : L' ≤ L := by
    refine hcovers.1 ?_
    rw [covers, Nat.pow_succ 2 (L + 21)]
    have hmul := Nat.mul_le_mul_right (2 ^ (L + 21)) htwelve
    dsimp only at hmul
    omega
  rcases hleL.eq_or_lt with heq | hlt
  · exact ⟨code, hcode, by rw [heq]⟩
  · -- The greatest multiple is three, so the power is halved and the multiples are doubled.
    have hsix : fp4Halves[top]! = 6 := by
      have hprev := hcovers.2 (Nat.le_sub_one_of_lt hlt)
      rw [covers, show L - 1 + 22 = L + 21 by omega] at hprev
      have hupper := Nat.le_of_mul_le_mul_right hprev (Nat.two_pow_pos _)
      have hlower := hlarge.resolve_left (by omega)
      omega
    have hpred : L' = L - 1 := by
      by_contra hne
      have hprev := hcovers.2 (by omega : L' ≤ L - 2)
      rw [covers, hsix, show L + 21 = L - 2 + 22 + 1 by omega, Nat.pow_succ] at hprev
      have hpos := Nat.two_pow_pos (L - 2 + 22)
      omega
    have hdouble : ∀ code < 8, fp4Halves[code]! ≤ 6 → ∃ code' < 8,
        fp4Halves[code']! = 2 * fp4Halves[code]! := by decide
    obtain ⟨code', hcode', heq⟩ := hdouble code hcode (hle.trans_eq hsix)
    refine ⟨code', hcode', ?_⟩
    rw [heq, hpred, show L + 22 = L - 1 + 22 + 1 by omega, Nat.pow_succ]
    ring

/-! ### The projection of a group -/

/-- The value to which a value of a group is projected. -/
private def projected (values : List F32) (value : F32) : F32 :=
  decodeCode (quantize value (Fp4ScaleEncodingV1.e8m0.groupScale values))
    (Fp4ScaleEncodingV1.e8m0.groupScale values)

private theorem projected_spec {values : List F32} (h : ∀ value ∈ values, value.isFinite = true)
    {value : F32} (hvalue : value.isFinite = true) :
    ∃ code < 8, projected values value = .rounded value.negative
        (fp4Halves[code]! * 2 ^ (leastExponent (groupAmax values).units + 22)) 2 ∧
      InCell value.units (2 ^ (leastExponent (groupAmax values).units + 22)) code := by
  obtain ⟨hscale, hsign, hunits, hdigits⟩ := Fp4ScaleEncodingV1.e8m0.units_groupScale h
  obtain ⟨code, hcode, heq, -, hcell⟩ :=
    decodeCode_quantize hvalue hscale hsign hunits hdigits
  exact ⟨code, hcode, heq, hcell (Nat.two_pow_pos _)⟩

/-- Projecting the projections of the values of a group changes none of them. -/
private theorem projected_projected {values projections : List F32}
    (h : ∀ value ∈ values, value.isFinite = true)
    (hfinite : ∀ value ∈ values, (projected values value).isFinite = true)
    (hmem : ∀ d, d ∈ projections ↔ ∃ value ∈ values, projected values value = d) {d : F32}
    (hd : d ∈ projections) : projected projections d = d := by
  have hprojections : ∀ d ∈ projections, d.isFinite = true := by
    intro d hd
    obtain ⟨value, hvalue, rfl⟩ := (hmem d).1 hd
    exact hfinite value hvalue
  obtain ⟨hamax, -⟩ := groupAmax_spec h
  obtain ⟨hbound, hattained⟩ := groupAmax_isGreatest h
  obtain ⟨hbound', hattained'⟩ := groupAmax_isGreatest hprojections
  set L := leastExponent (groupAmax values).units with hL
  -- The magnitude of a projection is a multiple of half the power.
  have hmultiple : ∀ value ∈ values, ∃ code < 8, projected values value =
      .rounded value.negative (fp4Halves[code]! * 2 ^ (L + 22)) 2 ∧
        (projected values value).units = fp4Halves[code]! * 2 ^ (L + 21) ∧
          InCell value.units (2 ^ (L + 22)) code := by
    intro value hvalue
    obtain ⟨code, hcode, heq, hcell⟩ := projected_spec h (h value hvalue)
    have hround := hfinite value hvalue
    rw [heq, Binary.isFinite_rounded_iff] at hround
    refine ⟨code, hcode, heq, ?_, hcell⟩
    rw [heq, Binary.units_rounded_eq]
    exact units_round_halves hcode hround
  obtain ⟨value, hvalue, rfl⟩ := (hmem d).1 hd
  obtain ⟨code, hcode, heq, hunits, -⟩ := hmultiple value hvalue
  have hpos := Nat.two_pow_pos (L + 21)
  have hlargeUnits : L = 0 ∨ 6 * 2 ^ (L + 21) ≤ (groupAmax projections).units := by
    rcases Nat.eq_zero_or_pos L with h0 | hleast
    · exact Or.inl h0
    rcases hattained with hzero | ⟨w, hw, hamaxEq⟩
    · rw [hL, hzero, leastExponent_zero] at hleast
      exact absurd hleast (Nat.lt_irrefl 0)
    · obtain ⟨codeW, -, -, hunitsW, hcellW⟩ := hmultiple w hw
      rw [hamaxEq] at hcellW
      have hsix := six_le_halves (F32.units_lt_two_pow hamax) hleast hcellW
      refine Or.inr (Nat.le_trans ?_ (hbound' _ ((hmem _).2 ⟨w, hw, rfl⟩)))
      rw [hunitsW]
      exact Nat.mul_le_mul_right _ hsix
  obtain ⟨top, htop, hgreatest⟩ : ∃ top < 8,
      (groupAmax projections).units = fp4Halves[top]! * 2 ^ (L + 21) := by
    rcases hattained' with hzero | ⟨_, hd', hgreatest⟩
    · exact ⟨0, by decide, by rw [hzero, fp4Halves_zero, Nat.zero_mul]⟩
    · obtain ⟨w, hw, rfl⟩ := (hmem _).1 hd'
      obtain ⟨top, htop, -, hunitsW, -⟩ := hmultiple w hw
      exact ⟨top, htop, by rw [← hgreatest, hunitsW]⟩
  have hle : fp4Halves[code]! ≤ fp4Halves[top]! := by
    refine Nat.le_of_mul_le_mul_right ?_ hpos
    rw [← hunits, ← hgreatest]
    exact hbound' _ hd
  have hlarge : L = 0 ∨ 6 ≤ fp4Halves[top]! := by
    refine hlargeUnits.imp id fun hsix => Nat.le_of_mul_le_mul_right ?_ hpos
    rwa [← hgreatest]
  have hlt := F32.units_lt_two_pow (groupAmax_spec hprojections).1
  rw [hgreatest] at hlt
  obtain ⟨code', hcode', hsame⟩ := exists_code_of_projection htop hlarge hle hcode hlt
  obtain ⟨code'', -, heq'', hcell''⟩ := projected_spec hprojections (hprojections _ hd)
  rw [hgreatest] at heq'' hcell''
  have hcell' : InCell (projected values value).units
      (2 ^ (leastExponent (fp4Halves[top]! * 2 ^ (L + 21)) + 22)) code' := by
    refine inCell_of_eq hcode' (Nat.two_pow_pos _) ?_
    rw [hunits, hsame, Nat.pow_succ 2 (L + 21)]
    ring
  rw [heq'', hcell''.unique hcell' (Nat.two_pow_pos _), hsame, heq, Binary.negative_rounded]

/-! ### The projection of a matrix -/

namespace CpuFp4E2M1KvBlockV1

variable {log2Ceil : F64 → ℤ} {layout : Fp4E2M1KvLayoutV1} {values : List F32}

/-- Each place of the projection of a projection holds what the projection holds. -/
private theorem Encodes.projectionAt_projection {block : CpuFp4E2M1KvBlockV1}
    (h : block.Encodes values) (hencoding : block.layout.scaleEncoding = .e8m0) {row position : ℕ}
    (hrow : row < block.layout.rows) (hposition : position < block.layout.rowWidth) :
    block.layout.projectionAt (block.layout.rowOf (block.layout.projection values) row) position =
      block.layout.projectionAt (block.layout.rowOf values row) position := by
  have hsize := block.layout.groupSize_pos
  have hlength := block.layout.length_rowOf h.length_eq hrow
  have hlength' := block.layout.length_rowOf (block.layout.length_projection values) hrow
  have hrowFinite := block.layout.finite_rowOf h.finite row
  have hat : ∀ position < block.layout.rowWidth,
      (block.layout.rowOf (block.layout.projection values) row).getD position default =
        block.layout.projectionAt (block.layout.rowOf values row) position := fun position hlt => by
    rw [block.layout.getD_rowOf _ hlt, block.layout.getD_projection values hrow hlt]
  have hprojection : ∀ rowValues position, block.layout.projectionAt rowValues position =
      projected (block.layout.groupOf rowValues (position / block.layout.groupSize))
        (rowValues.getD position default) := fun rowValues position => by
    rw [Fp4Shape.projectionAt, Fp4Shape.codeAt, Fp4Shape.scaleAt, hencoding, projected]
  rw [hprojection (block.layout.rowOf (block.layout.projection values) row), hat position hposition]
  refine projected_projected
    (block.layout.finite_groupOf hrowFinite (position / block.layout.groupSize))
    (fun value hvalue => ?_) (fun d => ?_) ?_
  · obtain ⟨p, hp, hgroup, rfl⟩ := (block.layout.mem_groupOf_iff hlength hsize).1 hvalue
    rw [← hgroup, ← hprojection]
    exact h.projection_finite row hrow p hp
  · rw [block.layout.mem_groupOf_iff hlength' hsize]
    constructor
    · rintro ⟨p, hp, hgroup, rfl⟩
      refine ⟨_, (block.layout.mem_groupOf_iff hlength hsize).2 ⟨p, hp, hgroup, rfl⟩, ?_⟩
      rw [hat p hp, hprojection, hgroup]
    · rintro ⟨value, hvalue, rfl⟩
      obtain ⟨p, hp, hgroup, rfl⟩ := (block.layout.mem_groupOf_iff hlength hsize).1 hvalue
      exact ⟨p, hp, hgroup, by rw [hat p hp, hprojection, hgroup]⟩
  · rw [← hat position hposition]
    exact block.layout.getD_mem_groupOf hlength' hsize hposition

/-- The projection under powers of two is idempotent: what a block is decoded to is finite and is
its own projection. -/
theorem Encodes.projection_projection {block : CpuFp4E2M1KvBlockV1} (h : block.Encodes values)
    (hencoding : block.layout.scaleEncoding = .e8m0) :
    block.layout.projection (block.layout.projection values) = block.layout.projection values ∧
      ∀ value ∈ block.layout.projection values, value.isFinite = true := by
  have hwidth := block.layout.rowWidth_pos
  have hplace : ∀ place < block.layout.rows * block.layout.rowWidth,
      place / block.layout.rowWidth < block.layout.rows ∧
        place % block.layout.rowWidth < block.layout.rowWidth := fun place hplace =>
    ⟨(Nat.div_lt_iff_lt_mul hwidth).2 hplace, Nat.mod_lt _ hwidth⟩
  constructor
  · rw [Fp4Shape.projection]
    refine List.map_congr_left fun place hmem => ?_
    obtain ⟨hrow, hposition⟩ := hplace place (List.mem_range.1 hmem)
    exact h.projectionAt_projection hencoding hrow hposition
  · intro value hvalue
    obtain ⟨place, hmem, rfl⟩ := List.mem_map.1 hvalue
    obtain ⟨hrow, hposition⟩ := hplace place (List.mem_range.1 hmem)
    exact h.projection_finite _ hrow _ hposition

/-- Encoding what was decoded from a block under powers of two succeeds, unless the host refuses the
memory, and the new block is decoded to the same words whatever its scales are. -/
theorem encode_decoded (log2Ceil : F64 → ℤ) (layout : Fp4E2M1KvLayoutV1) (values : List F32)
    (host₁ host₁' host₂ host : Allocator) (block : CpuFp4E2M1KvBlockV1) (decoded : List F32)
    (hencoding : layout.scaleEncoding = .e8m0)
    (hencode : (encode log2Ceil layout values).run host₁ = (.ok block, host₁'))
    (hdecode : (block.decode.run host₂).1 = .ok decoded) :
    (∃ block', ((encode log2Ceil layout decoded).run host).1 = .ok block' ∧
      ∀ host', (block'.decode.run host').1 = .ok decoded ∨
        (∃ error, host'.answer 0 (layout.rows * layout.rowWidth) = .error error) ∧
          (block'.decode.run host').1 = .error (.error .allocationFailed)) ∨
    (∃ round size error, host.answer round size = .error error) ∧
      ((encode log2Ceil layout decoded).run host).1 = .error (.error .allocationFailed) := by
  obtain ⟨rfl, h⟩ := (encode_spec log2Ceil layout values host₁).ok rfl hencode
  obtain ⟨hself, hfinite⟩ := h.projection_projection hencoding
  obtain rfl : decoded = block.layout.projection values := by
    rcases h.run_decode host₂ with ⟨-, hrun⟩ | ⟨-, hrun⟩
    · exact Except.ok.inj (hdecode.symm.trans hrun)
    · exact nomatch hdecode.symm.trans hrun
  have hspec := encode_spec log2Ceil block.layout (block.layout.projection values) host
  rcases hrun : (encode log2Ceil block.layout (block.layout.projection values)).run host with
    ⟨e | block', host'⟩
  · obtain ⟨e', rfl, hfailure⟩ := hspec.error rfl hrun
    refine Or.inr ?_
    cases hfailure with
    | count hne => exact absurd (block.layout.length_projection values) hne
    | nonFinite index _ hfind =>
      obtain ⟨hlt, hnot, -⟩ := List.findIdx?_eq_some_iff_getElem.1 hfind
      rw [hfinite _ (List.getElem_mem hlt)] at hnot
      exact nomatch hnot
    | allocation round size error _ _ hanswer => exact ⟨⟨round, size, error, hanswer⟩, rfl⟩
    | overflow row position _ _ hrow hposition hnot =>
      rw [h.projectionAt_projection hencoding hrow hposition,
        h.projection_finite row hrow position hposition] at hnot
      exact nomatch hnot
  · obtain ⟨hlayout, h'⟩ := hspec.ok rfl hrun
    refine Or.inl ⟨block', rfl, fun host' => ?_⟩
    have hdecoded := h'.run_decode host'
    rw [hlayout, hself] at hdecoded
    exact hdecoded.imp (fun hok => hok.2) id

/-- Four values of several magnitudes on a host that grants all memory. -/
theorem encode_decoded_fourValues : ∃ block host₁' decoded,
    (encode (fun _ => 0) (fourValuesLayout .e8m0) fourValues).run .granting =
        (.ok block, host₁') ∧
      (block.decode.run .granting).1 = .ok decoded ∧
      ∃ block', ((encode (fun _ => 0) (fourValuesLayout .e8m0) decoded).run .granting).1 =
        .ok block' ∧ (block'.decode.run .granting).1 = .ok decoded := by
  obtain ⟨block, host₁', hrun⟩ := exists_run_encode_eq
    (show (((encode (fun _ => 0) (fourValuesLayout .e8m0) fourValues).run
      .granting).1).isOk = true by decide +kernel)
  obtain ⟨hlayout, h⟩ := (encode_spec _ _ _ _).ok rfl hrun
  have hdecode : (block.decode.run .granting).1 = .ok (block.layout.projection fourValues) := by
    rcases h.run_decode .granting with ⟨-, hdecode⟩ | ⟨⟨error, hanswer⟩, -⟩
    · exact hdecode
    · exact nomatch hanswer
  refine ⟨block, host₁', _, hrun, hdecode, ?_⟩
  rcases encode_decoded _ _ _ _ _ _ .granting _ _ rfl hrun hdecode with
    ⟨block', hblock', hdecoded⟩ | ⟨⟨round, size, error, hanswer⟩, -⟩
  · rcases hdecoded .granting with hsame | ⟨⟨error, hanswer⟩, -⟩
    · exact ⟨block', hblock', hsame⟩
    · cases hanswer
  · cases hanswer

end CpuFp4E2M1KvBlockV1

/-! ### Values -/

private theorem value_pow2 {e : ℕ} (h : e < 255) :
    (pow2 ((e : ℤ) - 127)).value = 2 ^ ((e : ℤ) - 127) ∧
      (pow2 ((e : ℤ) - 127)).value = ((2 ^ (e + 22) : ℕ) : ℚ) / 2 ^ 149 := by
  obtain ⟨-, hsign, hunits⟩ := units_pow2 h
  have hvalue := F64.value_eq hsign hunits
  refine ⟨?_, hvalue⟩
  rw [hvalue, Nat.cast_pow, Nat.cast_ofNat, ← zpow_natCast, ← zpow_natCast,
    ← zpow_sub₀ two_ne_zero]
  exact congrArg _ (by push_cast; omega)

private theorem value_fp4E2m1Magnitudes (code : Fin 8) :
    (fp4E2m1Magnitudes code).value = (fp4Halves[code.val]! : ℚ) / 2 := by
  obtain ⟨-, hsign, hunits⟩ := units_fp4E2m1Magnitudes code
  have hpoint : binary32.point = 1 + 148 := rfl
  rw [Binary.value, Binary.signedUnits, hsign, if_neg Bool.false_ne_true, hunits, hpoint, pow_add,
    Int.cast_natCast, Nat.cast_mul, Nat.cast_pow, Nat.cast_ofNat, pow_one]
  exact mul_div_mul_right _ _ (pow_ne_zero 148 two_ne_zero)

/-! ### The chosen power -/

/-- The least exponent in range whose power of two covers the magnitudes of a group with its
six-fold. -/
def IsLeastExponent (values : List F32) (k : ℤ) : Prop :=
  IsLeast {k : ℤ | -127 ≤ k ∧ k ≤ 127 ∧ ∀ value ∈ values, |value.value| ≤ 6 * 2 ^ k} k

private theorem forall_abs_value_le_iff {values : List F32}
    (h : ∀ value ∈ values, value.isFinite = true) {e : ℕ} (he : e < 255) :
    (∀ value ∈ values, |value.value| ≤ 6 * 2 ^ ((e : ℤ) - 127)) ↔
      leastExponent (groupAmax values).units ≤ e := by
  have hpos : (0 : ℚ) < 2 ^ 149 := pow_pos two_pos 149
  obtain ⟨hbound, hattained⟩ := groupAmax_isGreatest h
  have hvalue : ∀ value : F32,
      |value.value| ≤ 6 * 2 ^ ((e : ℤ) - 127) ↔ value.units ≤ 6 * 2 ^ (e + 22) := by
    intro value
    rw [← (value_pow2 he).1, (value_pow2 he).2, F32.abs_value, ← mul_div_assoc,
      div_le_div_iff_of_pos_right hpos]
    exact_mod_cast Iff.rfl
  rw [← covers_iff_leastExponent_le (F32.units_lt_two_pow (groupAmax_spec h).1), covers]
  constructor
  · intro hall
    rcases hattained with hzero | ⟨value, hmem, heq⟩
    · rw [hzero]
      exact Nat.zero_le _
    · rw [← heq]
      exact (hvalue value).1 (hall value hmem)
  · exact fun hle value hmem => (hvalue value).2 ((hbound value hmem).trans hle)

/-- The exponent of the chosen scale is the least one. -/
theorem isLeastExponent_leastExponent {values : List F32}
    (h : ∀ value ∈ values, value.isFinite = true) :
    IsLeastExponent values ((leastExponent (groupAmax values).units : ℤ) - 127) := by
  have hle := leastExponent_le (F32.units_lt_two_pow (groupAmax_spec h).1)
  constructor
  · exact ⟨by omega, by omega, (forall_abs_value_le_iff h (by omega)).2 le_rfl⟩
  · rintro k ⟨hlow, hhigh, hall⟩
    obtain ⟨e, rfl⟩ : ∃ e : ℕ, k = (e : ℤ) - 127 := ⟨(k + 127).toNat, by omega⟩
    have := (forall_abs_value_le_iff h (by omega)).1 hall
    omega

/-! ### The nearest code -/

/-- The magnitude of a code is nearest to a value, and the code is the even one of two nearest
ones. -/
def IsNearestCode (x : ℚ) (code : Fin 8) : Prop :=
  ∀ c : Fin 8, |x - (fp4E2m1Magnitudes code).value| ≤ |x - (fp4E2m1Magnitudes c).value| ∧
    (|x - (fp4E2m1Magnitudes c).value| = |x - (fp4E2m1Magnitudes code).value| →
      c = code ∨ code.val % 2 = 0)

/-- The code of a cell is the nearest one to the quotient. -/
private theorem InCell.isNearestCode {v s : ℕ} {code : Fin 8} (h : InCell v s code) (hs : 0 < s) :
    IsNearestCode ((v : ℚ) / s) code := by
  have hpos : (0 : ℚ) < 2 * s := mul_pos two_pos (Nat.cast_pos.2 hs)
  have hdistance : ∀ c : Fin 8,
      |(v : ℚ) / s - (fp4E2m1Magnitudes c).value| = (fp4Distance v s c : ℚ) / (2 * s) := by
    intro c
    have hsub : (v : ℚ) / s - (fp4E2m1Magnitudes c).value =
        ((2 * v - fp4Halves[c.val]! * s : ℤ) : ℚ) / (2 * s) := by
      rw [value_fp4E2m1Magnitudes]
      push_cast
      field_simp
    rw [hsub, abs_div, abs_of_pos hpos, fp4Distance, ← Int.cast_abs, Int.abs_eq_natAbs,
      Int.cast_natCast]
  intro c
  obtain ⟨hle, htie⟩ := h.nearest hs c.isLt
  rw [hdistance, hdistance, div_le_div_iff_of_pos_right hpos, div_left_inj' hpos.ne', Nat.cast_le,
    Nat.cast_inj]
  exact ⟨hle, fun heq => (htie heq).imp Fin.ext id⟩

/-- Under a power of two the quantizer finds the code that is nearest to the exact quotient and
keeps the sign. -/
theorem quantize_pow2 {value : F32} (hvalue : value.isFinite = true) {k : ℤ} (hlow : -127 ≤ k)
    (hhigh : k ≤ 127) :
    ∃ code : Fin 8, quantize value (pow2 k) = fp4SignBit value.negative ||| UInt8.ofNat code ∧
      IsNearestCode (|value.value| / 2 ^ k) code := by
  obtain ⟨e, he, rfl⟩ : ∃ e < 255, k = ((e : ℕ) : ℤ) - 127 := ⟨(k + 127).toNat, by omega, by omega⟩
  obtain ⟨hfinite, hsign, hunits⟩ := units_pow2 he
  obtain ⟨code, hcode, heq, -, hcell⟩ :=
    quantize_spec hvalue hfinite hsign hunits (F32.digits_two_pow (by omega))
  refine ⟨⟨code, hcode⟩, heq, ?_⟩
  have hquotient : |value.value| / 2 ^ ((e : ℤ) - 127) =
      (value.units : ℚ) / ((2 ^ (e + 22) : ℕ) : ℚ) := by
    rw [← (value_pow2 he).1, (value_pow2 he).2, F32.abs_value]
    exact div_div_div_cancel_right₀ (pow_ne_zero 149 two_ne_zero) _ _
  rw [hquotient]
  have hcode' : InCell value.units (2 ^ (e + 22)) ((⟨code, hcode⟩ : Fin 8) : ℕ) :=
    hcell (Nat.two_pow_pos _)
  exact hcode'.isNearestCode (Nat.two_pow_pos _)

/-! ### Overflow -/

/-- The largest finite value of single precision. -/
def F32.largest : F32 := .ofBits 0x7F7FFFFF

private theorem units_largest :
    F32.largest.negative = false ∧ F32.largest.units = binary32.units (binary32.infinity - 1) := by
  decide +kernel

/-- The largest magnitude of a group is rounded to a code whose product with the scale exceeds the
largest finite value. -/
def GroupOverflows (values : List F32) : Prop :=
  ∃ (k : ℤ) (code : Fin 8), IsLeastExponent values k ∧
    quantize (groupAmax values) (pow2 k) = UInt8.ofNat code ∧
    F32.largest.value < (fp4E2m1Magnitudes code).value * 2 ^ k

/-- A multiple of half a power of two is rounded to a word that is not finite exactly when it
exceeds the largest finite value. -/
private theorem round_halves_lt_iff {code : Fin 8} {e : ℕ} (he : e < 255) :
    ¬ binary32.round (fp4Halves[code.val]! * 2 ^ (e + 22)) 2 < binary32.infinity ↔
      F32.largest.value < (fp4E2m1Magnitudes code).value * 2 ^ ((e : ℤ) - 127) := by
  have hpos : (0 : ℚ) < 2 ^ 149 := pow_pos two_pos 149
  obtain ⟨hsign, hunits⟩ := units_largest
  have hlargest : F32.largest.value = (binary32.units (binary32.infinity - 1) : ℚ) / 2 ^ 149 := by
    have hpoint : binary32.point = 149 := rfl
    rw [Binary.value, Binary.signedUnits, hsign, if_neg Bool.false_ne_true, hunits, hpoint,
      Int.cast_natCast]
  have hproduct : (fp4E2m1Magnitudes code).value * 2 ^ ((e : ℤ) - 127) =
      ((fp4Halves[code.val]! * 2 ^ (e + 21) : ℕ) : ℚ) / 2 ^ 149 := by
    rw [value_fp4E2m1Magnitudes, ← (value_pow2 he).1, (value_pow2 he).2, Nat.pow_succ 2 (e + 21)]
    push_cast
    ring
  rw [hlargest, hproduct, div_lt_div_iff_of_pos_right hpos, Nat.cast_lt]
  have hdouble : fp4Halves[code.val]! * 2 ^ (e + 22) = fp4Halves[code.val]! * 2 ^ (e + 21) * 2 := by
    rw [Nat.mul_assoc, ← Nat.pow_succ]
  have hinfinity : 0 < binary32.infinity := by decide
  constructor
  · intro hnot
    by_contra hle
    refine hnot (Nat.lt_of_le_of_lt (Format.round_le (p := binary32.infinity - 1) _ Nat.two_pos ?_)
      (Nat.sub_lt hinfinity Nat.one_pos))
    rw [hdouble]
    exact Nat.mul_le_mul_right 2 (Nat.not_lt.1 hle)
  · intro hlt hfinite
    rw [← units_round_halves code.isLt hfinite, Format.units_strictMono.lt_iff_lt] at hlt
    omega

/-- Greater magnitudes have greater codes. -/
private theorem InCell.mono {v v' s code code' : ℕ} (h : InCell v s code) (h' : InCell v' s code')
    (hs : 0 < s) (hle : v ≤ v') : code ≤ code' := by
  by_contra hlt
  have hcode := h.lt_eight
  obtain ⟨b, rfl⟩ : ∃ b, code = b + 1 := ⟨code - 1, by omega⟩
  have hlower := h.lower b rfl
  have hupper := h'.upper (by omega)
  have hfirst : fp4Halves[code']! ≤ fp4Halves[b]! := fp4Halves_mono (by omega) (by omega)
  have hsecond : fp4Halves[code' + 1]! ≤ fp4Halves[b + 1]! := fp4Halves_mono (by omega) hcode
  have hmul := Nat.mul_le_mul_right s (Nat.add_le_add hfirst hsecond)
  -- Only a midpoint between two even codes would be left.
  rcases Nat.eq_or_lt_of_le (Nat.lt_succ_iff.1 (Nat.not_le.1 hlt)) with rfl | hgap
  · omega
  · have hstrict := fp4Halves_strictMono hgap (by omega)
    have hmul' : (fp4Halves[code']! + fp4Halves[code' + 1]!) * s <
        (fp4Halves[b]! + fp4Halves[b + 1]!) * s := Nat.mul_lt_mul_of_pos_right (by omega) hs
    omega

/-- A group overflows exactly when a value of it is projected to a word that is not finite. -/
private theorem groupOverflows_iff {values : List F32}
    (h : ∀ value ∈ values, value.isFinite = true) :
    GroupOverflows values ↔ ∃ value ∈ values, (projected values value).isFinite = false := by
  obtain ⟨hamax, hsign⟩ := groupAmax_spec h
  obtain ⟨hbound, hattained⟩ := groupAmax_isGreatest h
  have hle := leastExponent_le (F32.units_lt_two_pow hamax)
  set L := leastExponent (groupAmax values).units with hL
  have hlt : L < 255 := by omega
  obtain ⟨hfinite, hneg, hunits⟩ := units_pow2 hlt
  obtain ⟨top, htop, hquantize, -, hcell⟩ :=
    quantize_spec hamax hfinite hneg hunits (F32.digits_two_pow (by omega))
  replace hcell := hcell (Nat.two_pow_pos _)
  rw [hsign, fp4SignBit, if_neg Bool.false_ne_true, UInt8.zero_or] at hquantize
  have hleast := isLeastExponent_leastExponent h
  rw [← hL] at hleast
  constructor
  · rintro ⟨k, code, hk, hcode, hlarge⟩
    obtain rfl : k = (L : ℤ) - 127 := hk.unique hleast
    have hsame : top = code.val := by
      have heq := congrArg UInt8.toNat (hquantize.symm.trans hcode)
      rw [UInt8.toNat_ofNat', UInt8.toNat_ofNat'] at heq
      omega
    rw [← round_halves_lt_iff hlt, ← hsame] at hlarge
    rcases hattained with hzero | ⟨value, hmem, heq⟩
    · -- Zero has the code zero, whose product is finite.
      rw [hzero] at hcell
      have hcellZero : InCell 0 (2 ^ (L + 22)) 0 :=
        inCell_of_eq (by decide) (Nat.two_pow_pos _) (by rw [fp4Halves_zero, Nat.zero_mul])
      rw [hcell.unique hcellZero (Nat.two_pow_pos _), fp4Halves_zero, Nat.zero_mul] at hlarge
      exact absurd (by decide) hlarge
    · obtain ⟨code', -, hprojected, hcell'⟩ := projected_spec h (h value hmem)
      rw [heq] at hcell'
      refine ⟨value, hmem, ?_⟩
      rw [hprojected, ← Bool.not_eq_true, Binary.isFinite_rounded_iff,
        hcell'.unique hcell (Nat.two_pow_pos _)]
      exact hlarge
  · rintro ⟨value, hmem, hnot⟩
    obtain ⟨code, hcode, hprojected, hcell'⟩ := projected_spec h (h value hmem)
    rw [hprojected, ← Bool.not_eq_true, Binary.isFinite_rounded_iff] at hnot
    have hlarge : F32.largest.value <
        (fp4E2m1Magnitudes ⟨code, hcode⟩).value * 2 ^ ((L : ℤ) - 127) :=
      (round_halves_lt_iff hlt).1 hnot
    refine ⟨_, ⟨top, htop⟩, hleast, hquantize, hlarge.trans_le ?_⟩
    have hmono := fp4Halves_mono (hcell'.mono hcell (Nat.two_pow_pos _) (hbound value hmem)) htop
    rw [value_fp4E2m1Magnitudes, value_fp4E2m1Magnitudes]
    have hcast : (fp4Halves[code]! : ℚ) ≤ fp4Halves[top]! := by exact_mod_cast hmono
    exact mul_le_mul_of_nonneg_right (div_le_div_of_nonneg_right hcast zero_le_two)
      (zpow_nonneg zero_le_two _)

namespace CpuFp4E2M1KvBlockV1

/-- The powers, the codes and the overflows of encoding.

* Whatever the logarithm by which the search begins, the scale of a group of finite values is the
  least power of two in range whose six-fold covers every magnitude of the group.
* Under a power of two in range the code of a finite value is that of the magnitude nearest to the
  quotient, the even one of two, under the sign of the value.
* Encoding a finite matrix of the right length fails with a decode overflow only when some group's
  largest magnitude is rounded to a code whose product with the scale exceeds the largest finite
  value, and does when there is such a group, unless the host refuses the memory before. -/
theorem e8m0_encode_spec (log2Ceil : F64 → ℤ) :
    (∀ values : List F32, (∀ value ∈ values, value.isFinite = true) → ∀ group, ∃ k : ℤ,
      IsLeastExponent values k ∧ (pow2 k).value = 2 ^ k ∧
        chooseScale log2Ceil .e8m0 values group =
          .ok (pow2 k, [UInt8.ofNat (k + 127).toNat, 0, 0, 0])) ∧
    (∀ value : F32, value.isFinite = true → ∀ k : ℤ, -127 ≤ k → k ≤ 127 → ∃ code : Fin 8,
      quantize value (pow2 k) = fp4SignBit value.negative ||| UInt8.ofNat code ∧
        IsNearestCode (|value.value| / 2 ^ k) code) ∧
    ∀ (layout : Fp4E2M1KvLayoutV1) (values : List F32) (host : Allocator),
      layout.scaleEncoding = .e8m0 → values.length = layout.rows * layout.rowWidth →
      (∀ value ∈ values, value.isFinite = true) →
      ((∃ group, ((encode log2Ceil layout values).run host).1 =
          .error (.error (.decodeOverflow group))) →
        ∃ row < layout.rows, ∃ group < layout.groupsPerRow,
          GroupOverflows (layout.groupOf (layout.rowOf values row) group)) ∧
      ((∃ row < layout.rows, ∃ group < layout.groupsPerRow,
          GroupOverflows (layout.groupOf (layout.rowOf values row) group)) →
        (∃ group, ((encode log2Ceil layout values).run host).1 =
          .error (.error (.decodeOverflow group))) ∨
        (∃ round size error, host.answer round size = .error error) ∧
          ((encode log2Ceil layout values).run host).1 = .error (.error .allocationFailed)) := by
  refine ⟨fun values h group => ?_, fun value hvalue k hlow hhigh =>
    quantize_pow2 hvalue hlow hhigh, fun layout values host hencoding hlength hfinite => ?_⟩
  · have hle := leastExponent_le (F32.units_lt_two_pow (groupAmax_spec h).1)
    refine ⟨_, isLeastExponent_leastExponent h, (value_pow2 (by omega)).1, ?_⟩
    rw [chooseScale_eq log2Ceil .e8m0 h]
    have hbyte : ((leastExponent (groupAmax values).units : ℤ) - 127 + 127).toNat =
        leastExponent (groupAmax values).units := by omega
    rw [hbyte]
    rfl
  have hsize := layout.groupSize_pos
  have hprojection : ∀ rowValues position, layout.projectionAt rowValues position =
      projected (layout.groupOf rowValues (position / layout.groupSize))
        (rowValues.getD position default) := fun rowValues position => by
    rw [Fp4Shape.projectionAt, Fp4Shape.codeAt, Fp4Shape.scaleAt, hencoding, projected]
  -- A group overflows exactly when the projection of the matrix is not finite somewhere in it.
  have hplace : (∃ row < layout.rows, ∃ group < layout.groupsPerRow,
      GroupOverflows (layout.groupOf (layout.rowOf values row) group)) ↔
        ∃ row < layout.rows, ∃ position < layout.rowWidth,
          (layout.projectionAt (layout.rowOf values row) position).isFinite = false := by
    have hmem : ∀ row < layout.rows, ∀ group value,
        value ∈ layout.groupOf (layout.rowOf values row) group ↔ _ := fun row hrow group value =>
      layout.mem_groupOf_iff (layout.length_rowOf hlength hrow) hsize
    have hgroup : ∀ row group,
        GroupOverflows (layout.groupOf (layout.rowOf values row) group) ↔ _ := fun row group =>
      groupOverflows_iff (layout.finite_groupOf (layout.finite_rowOf hfinite row) group)
    constructor
    · rintro ⟨row, hrow, group, -, hoverflow⟩
      obtain ⟨value, hvalue, hnot⟩ := (hgroup row group).1 hoverflow
      obtain ⟨position, hposition, rfl, rfl⟩ := (hmem row hrow group value).1 hvalue
      exact ⟨row, hrow, position, hposition, by rw [hprojection]; exact hnot⟩
    · rintro ⟨row, hrow, position, hposition, hnot⟩
      rw [hprojection] at hnot
      exact ⟨row, hrow, _, layout.div_lt_groupsPerRow hposition, (hgroup row _).2
        ⟨_, (hmem row hrow _ _).2 ⟨position, hposition, rfl, rfl⟩, hnot⟩⟩
  rw [hplace]
  have hspec := encode_spec log2Ceil layout values host
  rcases hrun : (encode log2Ceil layout values).run host with ⟨e | block, host'⟩
  · obtain ⟨e', rfl, hfailure⟩ := hspec.error rfl hrun
    cases hfailure with
    | count hne => exact absurd hlength hne
    | nonFinite index _ hfind =>
      obtain ⟨hlt, hnot, -⟩ := List.findIdx?_eq_some_iff_getElem.1 hfind
      rw [hfinite _ (List.getElem_mem hlt)] at hnot
      cases hnot
    | allocation round size error _ _ hanswer =>
      refine ⟨?_, fun _ => Or.inr ⟨⟨round, size, error, hanswer⟩, rfl⟩⟩
      rintro ⟨group, h⟩
      cases h
    | overflow row position _ _ hrow hposition hnot =>
      exact ⟨fun _ => ⟨row, hrow, position, hposition, hnot⟩, fun _ => Or.inl ⟨_, rfl⟩⟩
  · obtain ⟨rfl, h⟩ := hspec.ok rfl hrun
    constructor
    · rintro ⟨group, h⟩
      cases h
    rintro ⟨row, hrow, position, hposition, hnot⟩
    rw [h.projection_finite row hrow position hposition] at hnot
    cases hnot

end CpuFp4E2M1KvBlockV1

end NNIS

