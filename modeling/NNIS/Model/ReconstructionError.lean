import NNIS.Numeric.Bounds

/-!
# The reported error of a reference codec

The reference codecs of `nnis-model` report, for every tensor they store, the largest absolute
error and the mean squared error of its values, and refuse a tensor whose report is not finite.
For finite values that are reconstructed within the finite range the report is finite, for as many
values as a host slice can hold: every square is below `2 ^ 258`, and the running sum moves by at
most one pattern a value from `2 ^ 310` on.

## Main definitions

* `ReconstructionError`, `ReconstructionError.observe` — the running report.
* `validEvidence` — what the codecs accept.

## Main results

* `ReconstructionError.observe_bounded`, `ReconstructionError.validEvidence_of_bounded`.
-/

set_option autoImplicit false

namespace NNIS

/-- The running report over the values of a tensor. -/
structure ReconstructionError where
  maxAbsError : F32
  squaredErrorSum : F64

namespace ReconstructionError

/-- No value yet. -/
def none : ReconstructionError := ⟨.zero false, .zero false⟩

/-- One more value and what it is reconstructed to. -/
def observe (report : ReconstructionError) (value reconstructed : F32) : ReconstructionError :=
  let error := (value.sub reconstructed).abs
  let errorF64 := (value.convert binary64).sub (reconstructed.convert binary64)
  { maxAbsError := report.maxAbsError.max error
    squaredErrorSum := report.squaredErrorSum.add (errorF64.mul errorF64) }

/-- The mean squared error of a number of values. -/
def meanSquaredError (report : ReconstructionError) (count : ℕ) : F64 :=
  report.squaredErrorSum.div (.ofNat count)

end ReconstructionError

/-- The report of a stored tensor is accepted. -/
def validEvidence (maxAbsError : F32) (meanSquaredError : F64) : Bool :=
  maxAbsError.isFinite && meanSquaredError.isFinite &&
    !maxAbsError.lt (.zero false) && !meanSquaredError.lt (.zero false)

namespace ReconstructionError

/-- The report of `n` values is within the range in which one more square moves the sum by at most
one pattern. -/
structure Bounded (report : ReconstructionError) (n : ℕ) : Prop where
  maxAbsError_finite : report.maxAbsError.isFinite = true
  maxAbsError_sign : report.maxAbsError.negative = false
  sum_le : report.squaredErrorSum.magnitude ≤ 1333 * 2 ^ 52 + n
  sum_sign : report.squaredErrorSum.negative = false

theorem none_bounded : none.Bounded 0 := ⟨rfl, rfl, Nat.zero_le _, rfl⟩

private theorem infinity_binary64 : binary64.infinity = 2047 * 2 ^ 52 := rfl

/-- A finite word is below `2 ^ 128` in double precision. -/
private theorem convert_bounded {x : F32} (hx : x.isFinite = true) :
    (x.convert binary64).isFinite = true ∧ (x.convert binary64).units ≤ 2 ^ 1202 := by
  have hmagnitude : (x.convert binary64).magnitude ≤ (1150 + 1) * 2 ^ 52 := by
    refine Binary.magnitude_convert_le hx ?_
    rw [F64.units_start 1150 1202 rfl, point_binary64, point_binary32]
    calc binary32.units x.magnitude * 2 ^ 1074 ≤ 2 ^ 277 * 2 ^ 1074 :=
          Nat.mul_le_mul_right _ (F32.units_lt_two_pow hx).le
      _ = 2 ^ 1351 := two_pow_mul 277 1074 1351 rfl
      _ = 2 ^ 1202 * 2 ^ 149 := (two_pow_mul 1202 149 1351 rfl).symm
  have hunits := Binary.units_le_of_magnitude_le hmagnitude
  rw [F64.units_start 1150 1202 rfl] at hunits
  exact ⟨Binary.isFinite_of_magnitude_le hmagnitude (by rw [infinity_binary64]; omega), hunits⟩

/-- The square of an error is below `2 ^ 258`. -/
private theorem square_bounded {value reconstructed : F32} (hvalue : value.isFinite = true)
    (hreconstructed : reconstructed.isFinite = true) {error : F64}
    (herror : error = (value.convert binary64).sub (reconstructed.convert binary64)) :
    (error.mul error).isFinite = true ∧ (error.mul error).negative = false ∧
      (error.mul error).units ≤ 2 ^ 1332 := by
  obtain ⟨hv, hvu⟩ := convert_bounded hvalue
  obtain ⟨hr, hru⟩ := convert_bounded hreconstructed
  have hmagnitude : error.magnitude ≤ (1151 + 1) * 2 ^ 52 := by
    rw [herror]
    refine Binary.magnitude_sub_le hv hr ?_
    rw [F64.units_start 1151 1203 rfl]
    have htriangle := Int.natAbs_sub_le (value.convert binary64).signedUnits
      (reconstructed.convert binary64).signedUnits
    rw [Binary.natAbs_signedUnits, Binary.natAbs_signedUnits] at htriangle
    calc _ ≤ 2 ^ 1202 + 2 ^ 1202 := htriangle.trans (Nat.add_le_add hvu hru)
      _ = 2 ^ 1 * 2 ^ 1202 := by rw [Nat.pow_one, Nat.two_mul]
      _ = 2 ^ 1203 := two_pow_mul 1 1202 1203 rfl
  have hfinite : error.isFinite = true :=
    Binary.isFinite_of_magnitude_le hmagnitude (by rw [infinity_binary64]; omega)
  have hunits := Binary.units_le_of_magnitude_le hmagnitude
  rw [F64.units_start 1151 1203 rfl] at hunits
  have hsquare : (error.mul error).magnitude ≤ (1280 + 1) * 2 ^ 52 := by
    refine Binary.magnitude_mul_le hfinite hfinite ?_
    rw [F64.units_start 1280 1332 rfl, point_binary64]
    calc error.units * error.units ≤ 2 ^ 1203 * 2 ^ 1203 :=
          Nat.mul_le_mul hunits hunits
      _ = 2 ^ 2406 := two_pow_mul 1203 1203 2406 rfl
      _ = 2 ^ 1332 * 2 ^ 1074 := (two_pow_mul 1332 1074 2406 rfl).symm
  have hsquareUnits := Binary.units_le_of_magnitude_le hsquare
  rw [F64.units_start 1280 1332 rfl] at hsquareUnits
  refine ⟨Binary.isFinite_of_magnitude_le hsquare (by rw [infinity_binary64]; omega), ?_,
    hsquareUnits⟩
  rw [Binary.negative_mul hfinite hfinite, Bool.xor_self]

/-- One more value that is reconstructed within the finite range. -/
theorem observe_bounded {report : ReconstructionError} {n : ℕ} (h : report.Bounded n)
    (hn : n < 2 ^ 61) {value reconstructed : F32} (hvalue : value.isFinite = true)
    (hreconstructed : reconstructed.isFinite = true) {p : ℕ} (hp : p < binary32.infinity)
    (herror : (value.signedUnits - reconstructed.signedUnits).natAbs ≤ binary32.units p) :
    (report.observe value reconstructed).Bounded (n + 1) := by
  have hsum : report.squaredErrorSum.isFinite = true :=
    Binary.isFinite_of_magnitude_le h.sum_le (by rw [infinity_binary64]; omega)
  obtain ⟨hsquare, hsign, hunits⟩ := square_bounded hvalue hreconstructed rfl
  refine ⟨?_, ?_, ?_, Binary.negative_add hsum hsquare h.sum_sign hsign⟩
  · refine Binary.isFinite_max h.maxAbsError_finite ?_
    rw [Binary.isFinite_abs]
    exact Binary.isFinite_of_magnitude_le (Binary.magnitude_sub_le hvalue hreconstructed herror) hp
  · exact Binary.negative_max h.maxAbsError_sign (Binary.negative_abs _)
  · refine Binary.magnitude_add_le hsum hsquare ?_
    have htriangle := Int.natAbs_add_le report.squaredErrorSum.signedUnits
      (((value.convert binary64).sub (reconstructed.convert binary64)).mul
        ((value.convert binary64).sub (reconstructed.convert binary64))).signedUnits
    rw [Binary.natAbs_signedUnits, Binary.natAbs_signedUnits] at htriangle
    have hblock := Format.units_add_le binary64 (s := 1332)
      (p := 1333 * 2 ^ 52 + n) (Nat.le_add_right _ n)
    have hbefore := Binary.units_le_of_magnitude_le h.sum_le
    rw [Nat.add_assoc] at hblock
    exact htriangle.trans ((Nat.add_le_add hbefore hunits).trans hblock)

/-- The report of a number of values is accepted. -/
theorem validEvidence_of_bounded {report : ReconstructionError} {n : ℕ} (h : report.Bounded n)
    (hpos : 0 < n) (hn : n ≤ 2 ^ 61) :
    validEvidence report.maxAbsError (report.meanSquaredError n) = true := by
  have hsum : report.squaredErrorSum.isFinite = true :=
    Binary.isFinite_of_magnitude_le h.sum_le (by rw [infinity_binary64]; omega)
  have hone : 2 ^ binary64.point ≤ (Binary.ofNat n : F64).units :=
    Binary.one_le_units_ofNat hpos (by decide) (by decide)
  have hcount : (Binary.ofNat n : F64).isFinite = true := by
    have hmagnitude : (Binary.ofNat n : F64).magnitude ≤ (1083 + 1) * 2 ^ 52 := by
      refine Binary.magnitude_rounded_le _ Nat.one_pos ?_
      rw [F64.units_start 1083 1135 rfl, point_binary64, Nat.mul_one]
      calc n * 2 ^ 1074 ≤ 2 ^ 61 * 2 ^ 1074 := Nat.mul_le_mul_right _ hn
        _ = 2 ^ 1135 := two_pow_mul 61 1074 1135 rfl
    exact Binary.isFinite_of_magnitude_le hmagnitude (by rw [infinity_binary64]; omega)
  have hmean : (report.meanSquaredError n).isFinite = true := Binary.isFinite_div hsum hcount hone
  have hmeanSign : (report.meanSquaredError n).negative = false := by
    rw [meanSquaredError, Binary.negative_div hsum hcount hone, h.sum_sign]
    rfl
  rw [validEvidence, h.maxAbsError_finite, hmean, Binary.lt_zero_eq_false h.maxAbsError_sign,
    Binary.lt_zero_eq_false hmeanSign]
  rfl

end ReconstructionError

end NNIS
