import NNIS.Cpu.Fp4Kv
import NNIS.Cpu.Fp4KvWellFormed

/-!
# The scale of an FP4 group

The scale of a group is a function of the largest magnitude of the group. For powers of two it is
the least one whose six-fold covers the magnitude: the search first lowers and then raises its
exponent, and meets the least one from whatever guess it begins with.

## Main definitions

* `Fp4ScaleEncodingV1.groupScale` — the scale of a group of values.
* `leastExponent` — the exponent byte of the least power of two.

## Main results

* `groupAmax_isGreatest` — the largest magnitude.
* `chooseScale_eq` — the scale that is chosen, for every guess.
-/

set_option autoImplicit false

namespace NNIS

/-! ### The largest magnitude -/

/-- The largest magnitude bounds every magnitude and is one of them, or zero. -/
theorem groupAmax_isGreatest {values : List F32} (h : ∀ value ∈ values, value.isFinite = true) :
    (∀ value ∈ values, value.units ≤ (groupAmax values).units) ∧
      ((groupAmax values).units = 0 ∨
        ∃ value ∈ values, value.units = (groupAmax values).units) := by
  induction values using List.reverseRecOn with
  | nil => exact ⟨nofun, Or.inl Format.units_zero⟩
  | append_singleton values value ih =>
    have hprefix : ∀ v ∈ values, v.isFinite = true := fun v hv => h v (List.mem_append_left _ hv)
    obtain ⟨hbound, hattained⟩ := ih hprefix
    obtain ⟨hfinite, hsign⟩ := groupAmax_spec hprefix
    have hvalue : value.abs.isFinite = true := h value (List.mem_append_right _ List.mem_cons_self)
    have hamax : groupAmax (values ++ [value]) = (groupAmax values).max value.abs := by
      rw [groupAmax, List.foldl_append]
      rfl
    have hmax : (groupAmax values).max value.abs =
        if (groupAmax values).units < value.units then value.abs else groupAmax values := by
      rw [Binary.max, Binary.isNaN_eq_false hfinite, Binary.isNaN_eq_false hvalue,
        if_neg Bool.false_ne_true, if_neg Bool.false_ne_true]
      exact if_congr (Binary.lt_iff_units_lt hfinite hvalue hsign rfl) rfl rfl
    have habs : value.abs.units = value.units := rfl
    rw [hamax, hmax]
    split_ifs with hlt
    · refine ⟨fun v hv => ?_, Or.inr ⟨value, List.mem_append_right _ List.mem_cons_self, habs⟩⟩
      rcases List.mem_append.1 hv with hv | hv
      · exact (hbound v hv).trans hlt.le
      · rw [List.mem_singleton.1 hv, habs]
    · refine ⟨fun v hv => ?_, ?_⟩
      · rcases List.mem_append.1 hv with hv | hv
        · exact hbound v hv
        · rw [List.mem_singleton.1 hv]
          exact Nat.not_lt.1 hlt
      · exact hattained.imp id fun ⟨v, hv, heq⟩ => ⟨v, List.mem_append_left _ hv, heq⟩

/-! ### Powers of two -/

private theorem units_fp4Max :
    fp4Max.isFinite = true ∧ fp4Max.negative = false ∧ fp4Max.units = 3 * 2 ^ 1075 := by
  decide +kernel

/-- Six times a power of two in double precision. -/
private theorem units_covered {exponent : ℕ} (h : exponent < 255) :
    (fp4Max.mul (pow2 ((exponent : ℤ) - 127))).isFinite = true ∧
      (fp4Max.mul (pow2 ((exponent : ℤ) - 127))).negative = false ∧
      (fp4Max.mul (pow2 ((exponent : ℤ) - 127))).units = 6 * 2 ^ (exponent + 22) * 2 ^ 925 := by
  obtain ⟨hfinite, hsign, hunits⟩ := units_fp4Max
  obtain ⟨hfinite', hsign', hunits'⟩ := units_pow2 h
  have hpoint : binary64.point = 1074 := rfl
  have hproduct : fp4Max.units * (pow2 ((exponent : ℤ) - 127)).units =
      3 * 2 ^ (exponent + 948) * 2 ^ binary64.point := by
    rw [hunits, hunits', hpoint, ← Nat.pow_add, Nat.mul_assoc, ← Nat.pow_add, Nat.mul_assoc,
      ← Nat.pow_add]
    exact congrArg (3 * 2 ^ ·) (by omega)
  obtain ⟨hvalue, hfin, hneg⟩ := Binary.mul_units hfinite hfinite' hproduct (by decide)
    (Nat.lt_of_le_of_lt (by omega : exponent + 948 + 2 ≤ 1204) (by decide))
  refine ⟨hfin, by rw [hneg, hsign, hsign']; rfl, ?_⟩
  rw [hvalue, Nat.mul_assoc, ← Nat.pow_add, show 6 = 3 * 2 from rfl, Nat.mul_assoc,
    ← Nat.pow_succ']

/-- Six times a power of two covers a magnitude. -/
def covers (amax exponent : ℕ) : Prop := amax ≤ 6 * 2 ^ (exponent + 22)

instance (amax exponent : ℕ) : Decidable (covers amax exponent) :=
  inferInstanceAs (Decidable (_ ≤ _))

theorem covers_mono {amax exponent exponent' : ℕ} (h : covers amax exponent)
    (hle : exponent ≤ exponent') : covers amax exponent' :=
  Nat.le_trans h (Nat.mul_le_mul_left 6 (Nat.pow_le_pow_right Nat.two_pos (by omega)))

private theorem covers_of_lt {amax : ℕ} (h : amax < 2 ^ 277) : covers amax 253 := by
  refine h.le.trans ?_
  rw [show 253 + 22 = 275 from rfl, show 277 = 2 + 275 from rfl, pow_add]
  exact Nat.mul_le_mul_right _ (by decide)

/-- The exponent byte of the least power of two whose six-fold covers a magnitude. -/
def leastExponent (amax : ℕ) : ℕ := ((List.range 254).find? (covers amax ·)).getD 254

/-- The exponent is the least one. -/
theorem covers_iff_leastExponent_le {amax : ℕ} (h : amax < 2 ^ 277) {exponent : ℕ} :
    covers amax exponent ↔ leastExponent amax ≤ exponent := by
  have hlast := covers_of_lt h
  rw [leastExponent]
  cases hfind : (List.range 254).find? (covers amax ·) with
  | none =>
    rw [List.find?_eq_none] at hfind
    exact absurd (decide_eq_true hlast) (hfind 253 (List.mem_range.2 (by decide)))
  | some e =>
    obtain ⟨he, hbefore⟩ := List.find?_range_eq_some.1 hfind
    refine ⟨fun hc => Nat.not_lt.1 fun hlt => ?_, fun hle => ?_⟩
    · exact absurd (decide_eq_true hc) (by simpa using hbefore.2 exponent hlt)
    · exact covers_mono (of_decide_eq_true he) hle

theorem leastExponent_le {amax : ℕ} (h : amax < 2 ^ 277) : leastExponent amax ≤ 253 :=
  (covers_iff_leastExponent_le h).1 (covers_of_lt h)

theorem leastExponent_zero : leastExponent 0 = 0 :=
  Nat.le_zero.1 ((covers_iff_leastExponent_le (pow_pos two_pos _)).1 (Nat.zero_le _))

/-! ### The search -/

section Search

variable {amax : F32} (hfinite : amax.isFinite = true) (hsign : amax.negative = false)
include hfinite hsign

private theorem le_covered_iff {exponent : ℕ} (h : exponent < 255) :
    (amax.convert binary64).le (fp4Max.mul (pow2 ((exponent : ℤ) - 127))) = true ↔
      covers amax.units exponent := by
  obtain ⟨hunits, hfin, hneg⟩ := F32.convert_binary64 hfinite
  obtain ⟨hfin', hneg', hunits'⟩ := units_covered h
  rw [Binary.le_iff_units_le hfin hfin' (hneg.trans hsign) hneg', hunits, hunits', covers]
  exact Nat.mul_le_mul_right_iff (pow_pos two_pos _)

private theorem covered_lt_iff {exponent : ℕ} (h : exponent < 255) :
    (fp4Max.mul (pow2 ((exponent : ℤ) - 127))).lt (amax.convert binary64) = true ↔
      ¬ covers amax.units exponent := by
  obtain ⟨hunits, hfin, hneg⟩ := F32.convert_binary64 hfinite
  obtain ⟨hfin', hneg', hunits'⟩ := units_covered h
  rw [Binary.lt_iff_units_lt hfin' hfin hneg' (hneg.trans hsign), hunits, hunits', covers,
    Nat.not_le]
  exact Nat.mul_lt_mul_right (pow_pos two_pos _)

private theorem lowerExponent_eq {e : ℕ} (he : e < 255) :
    lowerExponent (amax.convert binary64) e = min (leastExponent amax.units) e := by
  have hamax := F32.units_lt_two_pow hfinite
  induction e with
  | zero => exact (Nat.min_zero _).symm
  | succ e ih =>
    have hexponent : ((e + 1 : ℕ) : ℤ) - 127 - 1 = (e : ℤ) - 127 := by omega
    rw [lowerExponent, hexponent]
    by_cases hle : leastExponent amax.units ≤ e
    · rw [if_pos ((le_covered_iff hfinite hsign (by omega)).2
        ((covers_iff_leastExponent_le hamax).2 hle)), ih (by omega)]
      omega
    · rw [if_neg fun h => hle ((covers_iff_leastExponent_le hamax).1
        ((le_covered_iff hfinite hsign (by omega)).1 h))]
      omega

private theorem raiseExponent_eq (group : ℕ) {left : ℕ} (hleft : left ≤ 254) :
    raiseExponent (amax.convert binary64) group left =
      .ok (max (leastExponent amax.units) (254 - left)) := by
  have hamax := F32.units_lt_two_pow hfinite
  have hleast := leastExponent_le hamax
  induction left with
  | zero =>
    have hexponent : (127 : ℤ) = ((254 : ℕ) : ℤ) - 127 := rfl
    rw [raiseExponent, hexponent, if_neg fun h => (covered_lt_iff hfinite hsign (by decide)).1 h
      ((covers_iff_leastExponent_le hamax).2 (by omega))]
    exact congrArg Except.ok (by omega)
  | succ left ih =>
    have hexponent : (127 : ℤ) - ((left + 1 : ℕ) : ℤ) = ((254 - (left + 1) : ℕ) : ℤ) - 127 := by
      omega
    rw [raiseExponent, hexponent]
    by_cases hle : leastExponent amax.units ≤ 254 - (left + 1)
    · rw [if_neg fun h => (covered_lt_iff hfinite hsign (by omega)).1 h
        ((covers_iff_leastExponent_le hamax).2 hle)]
      exact congrArg Except.ok (by omega)
    · rw [if_pos ((covered_lt_iff hfinite hsign (by omega)).2
        fun h => hle ((covers_iff_leastExponent_le hamax).1 h)), ih (by omega)]
      exact congrArg Except.ok (by omega)

end Search

/-! ### The chosen scale -/

/-- The scale of a largest magnitude in single precision. -/
def f32Scale (amax : F32) : F32 :=
  let quotient := amax.div fp4E2m1MaxMagnitude
  if (Binary.zero false).lt amax && quotient.isZero then .ofBits 1 else quotient

/-- The scale of a group of values. -/
def Fp4ScaleEncodingV1.groupScale (encoding : Fp4ScaleEncodingV1) (values : List F32) : F64 :=
  match encoding with
  | .f32 => (f32Scale (groupAmax values)).convert binary64
  | .e8m0 => pow2 ((leastExponent (groupAmax values).units : ℤ) - 127)

/-- The stored bytes of the scale of a group of values. -/
def Fp4ScaleEncodingV1.groupScaleBytes (encoding : Fp4ScaleEncodingV1) (values : List F32) :
    List UInt8 :=
  match encoding with
  | .f32 => (f32Scale (groupAmax values)).toLeBytes
  | .e8m0 => [UInt8.ofNat (leastExponent (groupAmax values).units), 0, 0, 0]

/-- The scale that is chosen for finite values does not depend on the guess from which the search
begins. -/
theorem chooseScale_eq (log2Ceil : F64 → ℤ) (encoding : Fp4ScaleEncodingV1) {values : List F32}
    (h : ∀ value ∈ values, value.isFinite = true) (group : ℕ) :
    chooseScale log2Ceil encoding values group =
      .ok (encoding.groupScale values, encoding.groupScaleBytes values) := by
  obtain ⟨hfinite, hsign⟩ := groupAmax_spec h
  cases encoding with
  | f32 => rfl
  | e8m0 =>
    rw [chooseScale]
    by_cases hzero : (groupAmax values).isZero = true
    · have hunits := Binary.units_eq_zero_iff.2 hzero
      simp only [hzero, ↓reduceIte, Fp4ScaleEncodingV1.groupScale,
        Fp4ScaleEncodingV1.groupScaleBytes, hunits, leastExponent_zero]
      rfl
    · have hlow : ∀ k : ℤ, (max (-127) (min 127 k) + 127).toNat < 255 := fun k => by omega
      simp only [hzero, Bool.false_eq_true, ↓reduceIte]
      rw [lowerExponent_eq hfinite hsign (hlow _), raiseExponent_eq hfinite hsign _ (by omega)]
      have hleast := leastExponent_le (F32.units_lt_two_pow hfinite)
      have hexponent : ∀ n < 255, max (leastExponent (groupAmax values).units)
          (254 - (254 - min (leastExponent (groupAmax values).units) n)) =
            leastExponent (groupAmax values).units := fun n hn => by omega
      rw [hexponent _ (hlow _)]
      rfl

end NNIS
