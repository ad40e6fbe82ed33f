import NNIS.Cpu.Fp4Projection
import NNIS.Numeric.Nearest

/-!
# The error of an FP4 value

A value and what its code is decoded to differ by at most the scale of the group, with two
exceptions under scales in single precision. The scale of a group whose largest magnitude is 8 or 15
smallest positive magnitudes is rounded down to 1 or 2 of them, and the largest code falls short of
the magnitude by more. And where six times the scale needs one digit more than a word has while five
times the scale does not, the largest code can be rounded up from a tie while the value is just
above the midpoint.

## Main definitions

* `f32ErrorExceeds` — the exceptions, by the largest magnitude of a group and a magnitude.
* `CpuFp4E2M1KvBlockV1.ErrorWithinScale` — the error bound of a block.

## Main results

* `error_le_iff_f32`, `error_le_e8m0` — the error of one value.
* `CpuFp4E2M1KvBlockV1.encode_errorWithinScale_iff` — the error bound holds but for the exceptions.
-/

set_option autoImplicit false

namespace NNIS

/-! ### Codes below the largest one -/

/-- Two natural numbers differ by at most a third. -/
def Near (a b bound : ℕ) : Prop := a ≤ b + bound ∧ b ≤ a + bound

/-- The value of the decoded magnitude of a code and its distance from the exact one. -/
private theorem exists_units_decoded {n : ℕ} (h : binary32.round n 2 < binary32.infinity) :
    ∃ t, (t = 1 ∨ t * 2 ^ 23 * 2 ≤ n) ∧ n ≤ 2 * binary32.units (binary32.round n 2) + t ∧
      2 * binary32.units (binary32.round n 2) ≤ n + t := by
  refine ⟨2 ^ binary32.shift n 2, ?_, ?_⟩
  · rcases binary32.shift_le n 2 with h0 | hle
    · rw [h0]
      exact Or.inl rfl
    · rw [Nat.pow_add, Nat.le_div_iff_mul_le Nat.two_pos] at hle
      rw [Nat.mul_comm (2 ^ binary32.shift n 2)]
      exact Or.inr hle
  · have hd : 0 < 2 * 2 ^ binary32.shift n 2 := Nat.mul_pos Nat.two_pos (Nat.two_pow_pos _)
    obtain ⟨hlow, hhigh, -⟩ := Format.nearestEven_near n hd
    rw [Format.units_round_eq Nat.two_pos h]
    generalize 2 ^ binary32.shift n 2 = t at *
    generalize Format.nearestEven n (2 * t) = m at *
    have h₁ : (2 * m + 1) * (2 * t) = 4 * (m * t) + 2 * t := by ring
    have h₂ : 2 * m * (2 * t) = 4 * (m * t) := by ring
    rw [h₁] at hlow
    rw [h₂] at hhigh
    omega

/-- The error of a code below the largest one. -/
private theorem near_of_lt_seven {v s code : ℕ} (hcell : InCell v s code) (hs : 0 < s)
    (hdigits : F32.Digits s) (hcode : code < 7)
    (hfinite : binary32.round (fp4Halves[code]! * s) 2 < binary32.infinity) :
    Near v (binary32.units (binary32.round (fp4Halves[code]! * s) 2)) s := by
  obtain ⟨t, ht, hlow, hhigh⟩ := exists_units_decoded hfinite
  have hupper := hcell.upper (by omega)
  by_cases hsix : code = 6
  · -- Four times the scale is exact, and the midpoints are as far apart as the bound allows.
    obtain ⟨c, j, hc, -, rfl⟩ := hdigits
    have hlower := hcell.lower 5 hsix.symm
    rw [hsix] at hfinite hupper hlower ⊢
    have hhalves : fp4Halves[5]! = 6 ∧ fp4Halves[6]! = 8 ∧ fp4Halves[6 + 1]! = 12 := ⟨rfl, rfl, rfl⟩
    rw [hhalves.2.1, hhalves.1] at hlower
    rw [hhalves.2.1, hhalves.2.2] at hupper
    rw [hhalves.2.1] at hfinite ⊢
    have height : 8 * (c * 2 ^ j) = c * 2 ^ (j + 2) * 2 := by
      rw [Nat.pow_add]
      ring
    have hexact : binary32.units (binary32.round (8 * (c * 2 ^ j)) 2) = 4 * (c * 2 ^ j) := by
      rw [height] at hfinite ⊢
      rw [Format.units_round_exact hc Nat.two_pos hfinite, Nat.pow_add]
      ring
    rw [hexact]
    generalize c * 2 ^ j = s at *
    rw [Near]
    omega
  · have hlower : ∀ c, c + 1 = code → (fp4Halves[c]! + fp4Halves[code]!) * s ≤ 4 * v :=
      fun c hc => (hcell.lower c hc).elim Nat.le_of_lt fun h => h.1.le
    have hupper' : 4 * v ≤ (fp4Halves[code]! + fp4Halves[code + 1]!) * s :=
      hupper.elim Nat.le_of_lt fun h => h.1.le
    clear hupper hcell hfinite
    have hhalves : ∀ code < 6, fp4Halves[code]! ≤ 6 ∧
        fp4Halves[code + 1]! ≤ fp4Halves[code]! + 2 := by decide
    obtain ⟨hsmall, hnext⟩ := hhalves code (by omega)
    have hbefore : code = 0 ∨ ∃ c, c + 1 = code := by
      rcases Nat.eq_zero_or_pos code with h0 | hpos
      · exact Or.inl h0
      · exact Or.inr ⟨code - 1, by omega⟩
    have hscale : fp4Halves[code]! * s ≤ 6 * s := Nat.mul_le_mul_right s hsmall
    have hgap : 4 * v ≤ 2 * (fp4Halves[code]! * s) + 2 * s := by
      refine hupper'.trans ?_
      have hmul := Nat.mul_le_mul_right s (Nat.add_le_add_left hnext fp4Halves[code]!)
      have hring : (fp4Halves[code]! + (fp4Halves[code]! + 2)) * s =
          2 * (fp4Halves[code]! * s) + 2 * s := by ring
      omega
    have hgap' : 2 * (fp4Halves[code]! * s) ≤ 4 * v + 2 * s := by
      rcases hbefore with rfl | ⟨c, rfl⟩
      · have hzero : fp4Halves[0]! = 0 := rfl
        rw [hzero]
        omega
      · have hmul := Nat.mul_le_mul_right s (Nat.add_le_add_left (hhalves c (by omega)).2
          fp4Halves[c + 1]!)
        have hlow' := hlower c rfl
        have hring : (fp4Halves[c + 1]! + (fp4Halves[c]! + 2)) * s =
            (fp4Halves[c]! + fp4Halves[c + 1]!) * s + 2 * s := by ring
        have hring' : (fp4Halves[c + 1]! + fp4Halves[c + 1]!) * s =
            2 * (fp4Halves[c + 1]! * s) := by ring
        omega
    generalize fp4Halves[code]! * s = n at *
    rw [Near]
    omega

/-! ### The largest code under a power of two -/

/-- Under a power of two whose six-fold covers the group the error is within the scale. -/
theorem error_le_e8m0 {v amax e code : ℕ} (hcell : InCell v (2 ^ (e + 22)) code)
    (hle : v ≤ amax) (hcovers : covers amax e) (hfit : e + 22 ≤ 276)
    (hfinite : binary32.round (fp4Halves[code]! * 2 ^ (e + 22)) 2 < binary32.infinity) :
    Near v (binary32.units (binary32.round (fp4Halves[code]! * 2 ^ (e + 22)) 2))
      (2 ^ (e + 22)) := by
  have hs : 0 < 2 ^ (e + 22) := Nat.two_pow_pos _
  by_cases hcode : code < 7
  · exact near_of_lt_seven hcell hs (F32.digits_two_pow hfit) hcode hfinite
  · obtain rfl : code = 7 := by
      have := hcell.lt_eight
      omega
    have hhalves : fp4Halves[6]! + fp4Halves[7]! = 20 ∧ fp4Halves[7]! = 12 := ⟨rfl, rfl⟩
    have hlower := hcell.lower 6 rfl
    rw [covers] at hcovers
    rw [hhalves.1] at hlower
    rw [hhalves.2] at hfinite ⊢
    have htwelve : 12 * 2 ^ (e + 22) = 3 * 2 ^ (e + 23) * 2 := by
      rw [Nat.pow_succ 2 (e + 22)]
      ring
    have hexact : binary32.units (binary32.round (12 * 2 ^ (e + 22)) 2) = 6 * 2 ^ (e + 22) := by
      rw [htwelve] at hfinite ⊢
      rw [Format.units_round_exact (by decide) Nat.two_pos hfinite, Nat.pow_succ 2 (e + 22)]
      ring
    rw [hexact]
    generalize 2 ^ (e + 22) = s at *
    rw [Near]
    omega

/-! ### The largest code under a scale in single precision -/

/-- The exceptions to the error bound: the largest magnitude of a group and one of its magnitudes,
in smallest positive magnitudes. -/
def f32ErrorExceeds (amax v : ℕ) : Prop :=
  amax = 8 ∧ v = 8 ∨ amax = 15 ∧ v = 15 ∨
    (v - 1) / 5 % 4 = 1 ∧ v % 5 = 1 ∧ v < 2 ^ 25 ∧ 2 ^ 25 ≤ 6 * ((v - 1) / 5) ∧
      (amax + 2 = 6 * ((v - 1) / 5) ∨ amax = 6 * ((v - 1) / 5) + 2)

instance (amax v : ℕ) : Decidable (f32ErrorExceeds amax v) :=
  inferInstanceAs (Decidable (_ ∨ _))

/-- The scale of a largest magnitude: a multiple of a power of two, near a sixth of it. -/
private theorem exists_units_sixth {amax : ℕ} (h : binary32.round amax 6 < binary32.infinity) :
    ∃ m t, binary32.units (binary32.round amax 6) = m * 2 ^ t ∧ (t = 0 ∨ 2 ^ 23 ≤ m) ∧
      m ≤ 2 ^ 24 ∧ amax ≤ 6 * (m * 2 ^ t) + 3 * 2 ^ t ∧ 6 * (m * 2 ^ t) ≤ amax + 3 * 2 ^ t ∧
      (amax = 6 * (m * 2 ^ t) + 3 * 2 ^ t ∨ 6 * (m * 2 ^ t) = amax + 3 * 2 ^ t → m % 2 = 0) := by
  set t := binary32.shift amax 6 with ht
  have hd : 0 < 6 * 2 ^ t := Nat.mul_pos (by decide) (Nat.two_pow_pos t)
  obtain ⟨hlow, hhigh, htie⟩ := Format.nearestEven_near amax hd
  have hsplit : ∀ n u : ℕ, (2 * n + 1) * (6 * u) = 12 * (n * u) + 6 * u := fun n u => by ring
  have hdouble : ∀ n u : ℕ, 2 * n * (6 * u) = 12 * (n * u) := fun n u => by ring
  rw [hsplit] at hlow htie
  rw [hdouble] at hhigh htie
  refine ⟨Format.nearestEven amax (6 * 2 ^ t), t, Format.units_round_eq (by decide) h, ?_, ?_,
    by omega, by omega, fun heq => htie (heq.imp (by omega) (by omega))⟩
  · refine (binary32.shift_le amax 6).imp id fun hle => ?_
    refine Nat.le_trans ?_ (Format.le_nearestEven amax _)
    rw [← Nat.div_div_eq_div_mul, Nat.le_div_iff_mul_le (Nat.two_pow_pos t), ← Nat.pow_add]
    exact hle
  · refine Format.nearestEven_le hd ?_
    have hlog : amax / 6 < 2 ^ (24 + t) := by
      rcases Nat.eq_zero_or_pos (amax / 6) with h0 | h0
      · rw [h0]
        exact Nat.two_pow_pos _
      · refine (Nat.log2_lt h0.ne').1 ?_
        rw [ht, Format.shift]
        change (amax / 6).log2 < 24 + ((amax / 6).log2 - 23)
        omega
    rw [Nat.pow_add] at hlog
    omega

/-- Six times a scale, rounded. -/
private theorem exists_units_six {m t : ℕ} (hm : m ≤ 2 ^ 24)
    (h : binary32.round (12 * (m * 2 ^ t)) 2 < binary32.infinity) :
    ∃ k, binary32.units (binary32.round (12 * (m * 2 ^ t)) 2) = k * 2 ^ t ∧
      (6 * m < 2 ^ 25 → k = 6 * m) ∧
      (2 ^ 25 ≤ 6 * m → 6 * m < 2 ^ 26 → k = 4 * Format.nearestEven (6 * m) 4) ∧
      (2 ^ 26 ≤ 6 * m → k = 8 * Format.nearestEven (6 * m) 8) := by
  have hhalf : 12 * (m * 2 ^ t) / 2 = 6 * m * 2 ^ t := by
    rw [show 12 * (m * 2 ^ t) = 6 * m * 2 ^ t * 2 by ring, Nat.mul_div_cancel _ Nat.two_pos]
  have hpos : 0 < 2 ^ t := Nat.two_pow_pos t
  -- The multiple is read off six times the multiple of the scale.
  have hround : ∀ i, 2 ^ (23 + i) ≤ 6 * m → 6 * m < 2 ^ (24 + i) →
      binary32.units (binary32.round (12 * (m * 2 ^ t)) 2) =
        Format.nearestEven (6 * m) (2 ^ i) * 2 ^ i * 2 ^ t := by
    intro i hlow hhigh
    have hshift : binary32.shift (12 * (m * 2 ^ t)) 2 = i + t := by
      refine Format.shift_eq ?_ ?_
      · change 2 ^ (23 + (i + t)) ≤ _
        rw [hhalf, ← Nat.add_assoc, Nat.pow_add 2 (23 + i)]
        exact Nat.mul_le_mul_right _ hlow
      · change _ < 2 ^ (23 + (i + t) + 1)
        rw [hhalf, show 23 + (i + t) + 1 = 24 + i + t by omega, Nat.pow_add 2 (24 + i)]
        exact Nat.mul_lt_mul_of_pos_right hhigh hpos
    rw [Format.units_round_eq Nat.two_pos h, hshift, Nat.pow_add]
    have hn : 12 * (m * 2 ^ t) = 6 * m * (2 * 2 ^ t) := by ring
    have hd : 2 * (2 ^ i * 2 ^ t) = 2 ^ i * (2 * 2 ^ t) := by ring
    rw [hn, hd, Format.nearestEven_mul_right _ _ (Nat.mul_pos Nat.two_pos hpos), Nat.mul_assoc]
  by_cases hsmall : 6 * m < 2 ^ 25
  · refine ⟨6 * m, ?_, fun _ => rfl, fun h' => by omega, fun h' => by omega⟩
    have hn : 12 * (m * 2 ^ t) = 3 * m * 2 ^ (t + 1) * 2 := by
      rw [Nat.pow_succ]
      ring
    rw [hn] at h ⊢
    have hdigits : 3 * m < 2 ^ (binary32.fractionBits + 1) := by
      change 3 * m < 2 ^ 24
      omega
    rw [Format.units_round_exact hdigits Nat.two_pos h, Nat.pow_succ]
    ring
  · by_cases hmiddle : 6 * m < 2 ^ 26
    · refine ⟨4 * Format.nearestEven (6 * m) 4, ?_, fun h' => by omega, fun _ _ => rfl,
        fun h' => by omega⟩
      rw [hround 2 (Nat.not_lt.1 hsmall) hmiddle, show 2 ^ 2 = 4 from rfl]
      ring
    · refine ⟨8 * Format.nearestEven (6 * m) 8, ?_, fun h' => by omega, fun _ h' => by omega,
        fun _ => rfl⟩
      rw [hround 3 (Nat.not_lt.1 hmiddle) (by omega), show 2 ^ 3 = 8 from rfl]
      ring

/-- The multiple of four that is nearest to six times a number. -/
private theorem four_mul_nearestEven (m : ℕ) :
    4 * Format.nearestEven (6 * m) 4 + 2 * (if m % 4 = 3 then 1 else 0) =
      6 * m + 2 * (if m % 4 = 1 then 1 else 0) := by
  rw [Format.nearestEven]
  split_ifs <;> omega

/-- A multiple of eight near six times a number is the nearest one. -/
private theorem eight_mul_nearestEven {m a : ℕ} (hupper : a ≤ 6 * m + 3) (hlower : 6 * m ≤ a + 3)
    (ha : 8 ∣ a) : 8 * Format.nearestEven (6 * m) 8 = a := by
  obtain ⟨b, rfl⟩ := ha
  refine congrArg (8 * ·) (Nat.le_antisymm ?_ ?_)
  · obtain ⟨-, h, -⟩ := Format.nearestEven_near (6 * m) (by decide : 0 < 8)
    omega
  · obtain ⟨h, -, -⟩ := Format.nearestEven_near (6 * m) (by decide : 0 < 8)
    omega

/-- The exceptions by the scale, where it is one digit more than a word has at most. -/
private theorem f32ErrorExceeds_iff {w a m : ℕ} (htop : 5 * m < w) (hle : w ≤ a)
    (hupper : a ≤ 6 * m + 3) (hlower : 6 * m ≤ a + 3) (htie : a = 6 * m + 3 → m % 2 = 0) :
    f32ErrorExceeds a w ↔ m = 1 ∧ w = 8 ∨ m = 2 ∧ w = 15 ∨
      m % 4 = 1 ∧ w = 5 * m + 1 ∧ w < 2 ^ 25 ∧ 2 ^ 25 ≤ 6 * m ∧
        (a + 2 = 6 * m ∨ a = 6 * m + 2) := by
  rw [f32ErrorExceeds]
  refine or_congr (by omega) (or_congr (by omega) ?_)
  by_cases hm : (w - 1) / 5 = m
  · rw [hm]
    exact and_congr_right fun _ => ⟨fun h => ⟨by omega, h.2⟩, fun h => ⟨by omega, h.2⟩⟩
  · exact iff_of_false (fun h => hm (by omega)) fun h => hm (by omega)

/-- The largest code, counted in multiples of the power of two of the scale. -/
private theorem near_top_iff {w a m k : ℕ} (hpos : 0 < m) (hm : m ≤ 2 ^ 24)
    (hexact : 6 * m < 2 ^ 25 → k = 6 * m)
    (hfour : 2 ^ 25 ≤ 6 * m → 6 * m < 2 ^ 26 → k = 4 * Format.nearestEven (6 * m) 4)
    (height : 2 ^ 26 ≤ 6 * m → k = 8 * Format.nearestEven (6 * m) 8)
    (htop : 5 * m < w) (hle : w ≤ a) (hupper : a ≤ 6 * m + 3) (hlower : 6 * m ≤ a + 3)
    (htie : a = 6 * m + 3 → m % 2 = 0) (hw : ∀ i, 2 ^ (24 + i) ≤ w → 2 ^ (i + 1) ∣ w)
    (ha : ∀ i, 2 ^ (24 + i) ≤ a → 2 ^ (i + 1) ∣ a) : Near w k m ↔ ¬ f32ErrorExceeds a w := by
  rw [f32ErrorExceeds_iff htop hle hupper hlower htie, Near]
  by_cases hsmall : 6 * m < 2 ^ 25
  · rw [hexact hsmall]
    by_cases hthree : 3 ≤ m
    · exact iff_of_true (by omega) (by omega)
    · obtain rfl | rfl : m = 1 ∨ m = 2 := by omega
      · omega
      · omega
  · have hw₀ := hw 0
    have hw₁ := hw 1
    have ha₁ := ha 1
    have ha₂ := ha 2
    by_cases hmiddle : 6 * m < 2 ^ 26
    · have hk := four_mul_nearestEven m
      rw [← hfour (by omega) hmiddle] at hk
      by_cases hone : m % 4 = 1
      · rw [if_neg (by omega), if_pos hone] at hk
        by_cases hlast : w = 5 * m + 1
        · -- The value is just above the midpoint and its code is decoded upwards.
          have hw25 : w < 2 ^ 25 := by
            by_contra hge
            have h4 : 4 ∣ w := hw₁ (Nat.not_lt.1 hge)
            omega
          have ha4 : 4 ∣ a := ha₁ (by omega)
          exact iff_of_false (by omega) (by omega)
        · exact iff_of_true (by omega) (by omega)
      · rw [if_neg hone] at hk
        refine iff_of_true ?_ (by omega)
        split_ifs at hk <;> omega
    · have ha26 : 8 ∣ a := ha₂ (by
        have h4 : 4 ∣ a := ha₁ (by omega)
        omega)
      rw [height (by omega), eight_mul_nearestEven hupper hlower ha26]
      refine iff_of_true ?_ (by omega)
      by_cases hw25 : 2 ^ 25 ≤ w
      · have h4 : 4 ∣ w := hw₁ hw25
        have hcase : m % 4 = 1 ∨ a ≤ 6 * m := by omega
        omega
      · omega

/-- A value of single precision as a multiple of a power of two it is large against. -/
private theorem exists_multiple {v t : ℕ} (hv : F32.Digits v) (h : t = 0 ∨ 2 ^ (23 + t) ≤ v) :
    ∃ w, v = w * 2 ^ t ∧ ∀ i, 2 ^ (24 + i) ≤ w → 2 ^ (i + 1) ∣ w := by
  have hpos : 0 < 2 ^ t := Nat.two_pow_pos t
  have hdvd : 2 ^ t ∣ v := by
    rcases t with _ | t
    · exact Nat.one_dvd v
    · exact hv.dvd (i := t) (h.resolve_left (Nat.succ_ne_zero t) |>.trans_eq' (by
        rw [show 24 + t = 23 + (t + 1) by omega]))
  obtain ⟨w, hw⟩ := hdvd
  refine ⟨w, by rw [hw, Nat.mul_comm], fun i hi => ?_⟩
  have hlarge : 2 ^ (24 + (i + t)) ≤ v := by
    rw [hw, ← Nat.add_assoc, Nat.pow_add, Nat.mul_comm (2 ^ t)]
    exact Nat.mul_le_mul_right _ hi
  have hdvd' := hv.dvd hlarge
  rw [hw, show i + t + 1 = t + (i + 1) by omega, Nat.pow_add] at hdvd'
  exact Nat.dvd_of_mul_dvd_mul_left hpos hdvd'

/-- The largest code is that of the values above five times the scale. -/
private theorem code_eq_seven_iff {v s code : ℕ} (h : InCell v s code) :
    code = 7 ↔ 5 * s < v := by
  have hlt := h.lt_eight
  constructor
  · rintro rfl
    have hmid : fp4Halves[6]! + fp4Halves[7]! = 20 := rfl
    have hlower := h.lower 6 rfl
    rw [hmid] at hlower
    omega
  · intro hv
    by_contra hne
    have hbound : fp4Halves[code]! + fp4Halves[code + 1]! ≤ 20 := by
      have hall : ∀ code < 7, fp4Halves[code]! + fp4Halves[code + 1]! ≤ 20 := by decide
      exact hall code (by omega)
    have hupper := h.upper (by omega)
    have hmul := Nat.mul_le_mul_right s hbound
    omega

/-- Under a scale in single precision the error of a value is within the scale but for the
exceptions. -/
theorem error_le_iff_f32 {v amax s code : ℕ} (hcell : InCell v s code) (hv : F32.Digits v)
    (hamax : F32.Digits amax) (hle : v ≤ amax) (hs : 0 < s) (hdigits : F32.Digits s)
    (hround : binary32.round amax 6 < binary32.infinity)
    (hscale : binary32.round amax 6 ≠ 0 → s = binary32.units (binary32.round amax 6))
    (hsmall : binary32.round amax 6 = 0 → s = 1)
    (hfinite : binary32.round (fp4Halves[code]! * s) 2 < binary32.infinity) :
    Near v (binary32.units (binary32.round (fp4Halves[code]! * s) 2)) s ↔
      ¬ f32ErrorExceeds amax v := by
  obtain ⟨m, t, hunits, hnormal, hm, hupper, hlower, htie⟩ := exists_units_sixth hround
  have hpos : 0 < 2 ^ t := Nat.two_pow_pos t
  have htop := code_eq_seven_iff hcell
  by_cases hzero : binary32.round amax 6 = 0
  · -- The largest magnitude is three at most and its scale is one.
    rw [hzero, Format.units_zero, eq_comm, Nat.mul_eq_zero] at hunits
    obtain rfl := hunits.resolve_right hpos.ne'
    obtain rfl := hnormal.resolve_right (by omega)
    obtain rfl := hsmall hzero
    rw [Nat.zero_mul, Nat.mul_zero, Nat.zero_add, Nat.pow_zero, Nat.mul_one] at hupper
    refine iff_of_true (near_of_lt_seven hcell hs hdigits ?_ hfinite) ?_
    · have := hcell.lt_eight
      omega
    · rw [f32ErrorExceeds]
      omega
  have hs' : s = m * 2 ^ t := (hscale hzero).trans hunits
  -- A scale above one digit more than a word has excludes the exceptions.
  have hexceeds : f32ErrorExceeds amax v → t = 0 := by
    intro h
    rcases hnormal with h0 | hlarge
    · exact h0
    by_contra hne
    have htwo : 2 ≤ 2 ^ t := Nat.le_self_pow hne 2
    have hmul : (6 * m - 3) * 2 ≤ (6 * m - 3) * 2 ^ t := Nat.mul_le_mul_left _ htwo
    have hsub : (6 * m - 3) * 2 ^ t = 6 * (m * 2 ^ t) - 3 * 2 ^ t := by
      rw [Nat.sub_mul, Nat.mul_assoc]
    rw [f32ErrorExceeds] at h
    omega
  by_cases hcode : 5 * s < v
  · obtain rfl := htop.2 hcode
    have htwelve : fp4Halves[7]! = 12 := rfl
    rw [htwelve, hs'] at hfinite ⊢
    obtain ⟨k, hk, hexact, hfour, height⟩ := exists_units_six hm hfinite
    have hmpos : 0 < m := Nat.pos_of_mul_pos_right (hs' ▸ hs)
    have hlarge : t = 0 ∨ 2 ^ (23 + t) ≤ v := by
      refine hnormal.imp id fun h => ?_
      have hmul := Nat.mul_le_mul_right (2 ^ t) h
      rw [Nat.pow_add]
      omega
    obtain ⟨w, rfl, hw⟩ := exists_multiple hv hlarge
    obtain ⟨a, rfl, ha⟩ := exists_multiple hamax (hlarge.imp id fun h => h.trans hle)
    rw [hs', ← Nat.mul_assoc] at hcode
    rw [← Nat.mul_assoc, ← Nat.add_mul] at hupper hlower
    rw [← Nat.mul_assoc, ← Nat.add_mul, ← Nat.add_mul] at htie
    have hw5 := Nat.lt_of_mul_lt_mul_right hcode
    have hwa := Nat.le_of_mul_le_mul_right hle hpos
    have hau := Nat.le_of_mul_le_mul_right hupper hpos
    have hal := Nat.le_of_mul_le_mul_right hlower hpos
    have hiff := near_top_iff hmpos hm hexact hfour height hw5 hwa hau hal
      (fun h => htie (Or.inl (by rw [h]))) hw ha
    have hnear : Near (w * 2 ^ t) (k * 2 ^ t) (m * 2 ^ t) ↔ Near w k m := by
      rw [Near, Near, ← Nat.add_mul, ← Nat.add_mul, Nat.mul_le_mul_right_iff hpos,
        Nat.mul_le_mul_right_iff hpos]
    rw [hk, hnear, hiff]
    rcases Nat.eq_zero_or_pos t with rfl | ht
    · rw [Nat.pow_zero, Nat.mul_one, Nat.mul_one]
    · refine iff_of_true ?_ fun h => ht.ne' (hexceeds h)
      have hm23 := hnormal.resolve_left ht.ne'
      rw [f32ErrorExceeds]
      omega
  · refine iff_of_true (near_of_lt_seven hcell hs hdigits ?_ hfinite) fun h => ?_
    · have := hcell.lt_eight
      omega
    · obtain rfl := hexceeds h
      rw [f32ErrorExceeds] at h
      rw [Nat.pow_zero, Nat.mul_one] at hs' hupper hlower htie
      omega

/-! ### The error of a block -/

/-- The error of a value by its magnitude, in smallest positive magnitudes. -/
private theorem value_sub_le_iff {x y : F32} (hsign : y.negative = x.negative) {scale : F64}
    {s : ℕ} (hscale : scale.negative = false) (hunits : scale.units = s * 2 ^ 925) :
    |x.value - y.value| ≤ scale.value ↔ Near x.units y.units s := by
  have hpos : (0 : ℚ) < 2 ^ 149 := pow_pos two_pos 149
  have hdiff : |x.value - y.value| = |(x.units : ℚ) - y.units| / 2 ^ 149 := by
    have hpoint : binary32.point = 149 := rfl
    rw [Binary.value, Binary.value, Binary.signedUnits, Binary.signedUnits, hsign, hpoint,
      ← sub_div, abs_div, abs_of_pos hpos]
    cases x.negative with
    | false =>
      rw [if_neg Bool.false_ne_true, if_neg Bool.false_ne_true, Int.cast_natCast, Int.cast_natCast]
    | true =>
      rw [if_pos rfl, if_pos rfl, Int.cast_neg, Int.cast_neg, Int.cast_natCast, Int.cast_natCast,
        neg_sub_neg, abs_sub_comm]
  rw [F64.value_eq hscale hunits, hdiff, div_le_div_iff_of_pos_right hpos, abs_sub_le_iff, Near]
  constructor
  · rintro ⟨h, h'⟩
    exact ⟨by exact_mod_cast sub_le_iff_le_add'.1 h, by exact_mod_cast sub_le_iff_le_add'.1 h'⟩
  · rintro ⟨h, h'⟩
    exact ⟨sub_le_iff_le_add'.2 (by exact_mod_cast h), sub_le_iff_le_add'.2 (by exact_mod_cast h')⟩

/-- The error of a value of a group. -/
private theorem near_group_iff (encoding : Fp4ScaleEncodingV1) {group : List F32}
    (hgroup : ∀ value ∈ group, value.isFinite = true) {value : F32} (hmem : value ∈ group)
    {code : ℕ} (hzero : encoding.scaleUnits group = 0 → code = 0)
    (hcell : 0 < encoding.scaleUnits group → InCell value.units (encoding.scaleUnits group) code)
    (hfinite : binary32.round (fp4Halves[code]! * encoding.scaleUnits group) 2 <
      binary32.infinity) :
    Near value.units (binary32.units
      (binary32.round (fp4Halves[code]! * encoding.scaleUnits group) 2))
        (encoding.scaleUnits group) ↔
      ¬ (encoding = .f32 ∧ f32ErrorExceeds (groupAmax group).units value.units) := by
  obtain ⟨hamax, hsign⟩ := groupAmax_spec hgroup
  have hle := (groupAmax_isGreatest hgroup).1 value hmem
  have hbound := F32.units_lt_two_pow hamax
  have hdigits := (encoding.units_groupScale hgroup).2.2.2
  cases encoding with
  | e8m0 =>
    have hleast := leastExponent_le hbound
    exact iff_of_true (error_le_e8m0 (hcell (Nat.two_pow_pos _)) hle
      ((covers_iff_leastExponent_le hbound).2 le_rfl) (by omega) hfinite) fun h => nomatch h.1
  | f32 =>
    obtain ⟨-, -, hround, hscale, hsmall⟩ := f32Scale_spec hamax hsign
    change (groupAmax group).units = 0 ∨ _ → Fp4ScaleEncodingV1.f32.scaleUnits group = _ at hscale
    change _ → _ → Fp4ScaleEncodingV1.f32.scaleUnits group = _ at hsmall
    rw [and_iff_right rfl]
    rcases Nat.eq_zero_or_pos (Fp4ScaleEncodingV1.f32.scaleUnits group) with h0 | hpos
    · -- A zero scale is that of zeros.
      have hamaxZero : (groupAmax group).units = 0 := by
        by_contra hne
        rcases Nat.eq_zero_or_pos (binary32.round (groupAmax group).units 6) with hr | hr
        · rw [hsmall (Nat.pos_of_ne_zero hne) hr] at h0
          exact absurd h0 Nat.one_ne_zero
        · have hunits : binary32.units 0 <
            binary32.units (binary32.round (groupAmax group).units 6) := Format.units_strictMono hr
          rw [← hscale (Or.inr hr.ne'), h0] at hunits
          exact Nat.not_lt_zero _ hunits
      have hvalue : value.units = 0 := by omega
      have hround0 : binary32.units (binary32.round (fp4Halves[0]! * 0) 2) = 0 := by decide
      rw [h0, hzero h0, hvalue, hamaxZero, hround0]
      refine iff_of_true ⟨Nat.le_refl 0, Nat.le_refl 0⟩ ?_
      rw [f32ErrorExceeds]
      omega
    · have hamaxPos : 0 < (groupAmax group).units := by
        by_contra hne
        have hunits := hscale (Or.inl (by omega))
        rw [Nat.eq_zero_of_not_pos hne] at hunits
        exact hpos.ne' hunits
      exact error_le_iff_f32 (hcell hpos) (F32.digits_units (hgroup value hmem))
        (F32.digits_units hamax) hle hpos hdigits hround (fun h => hscale (Or.inr h))
        (hsmall hamaxPos) hfinite

namespace CpuFp4E2M1KvBlockV1

/-- Each value of a matrix differs from the value decoded in its place by at most the scale of the
group of the place. -/
def ErrorWithinScale (block : CpuFp4E2M1KvBlockV1) (values decoded : List F32) : Prop :=
  ∀ row < block.layout.rows, ∀ position < block.layout.rowWidth, ∀ scale,
    block.scale (row * block.layout.groupsPerRow + position / block.layout.groupSize) = .ok scale →
      |(values.getD (row * block.layout.rowWidth + position) default).value -
        (decoded.getD (row * block.layout.rowWidth + position) default).value| ≤ scale.value

/-- A group of a matrix holds an exception to the error bound. -/
def F32Exception (layout : Fp4E2M1KvLayoutV1) (values : List F32) : Prop :=
  layout.scaleEncoding = .f32 ∧ ∃ row < layout.rows, ∃ position < layout.rowWidth,
    f32ErrorExceeds
      (groupAmax (layout.groupOf (layout.rowOf values row) (position / layout.groupSize))).units
      (values.getD (row * layout.rowWidth + position) default).units

/-- The error at a place is within the scale but for the exceptions. -/
private theorem Encodes.error_le_iff {block : CpuFp4E2M1KvBlockV1} {values : List F32}
    (h : block.Encodes values) {row position : ℕ} (hrow : row < block.layout.rows)
    (hposition : position < block.layout.rowWidth) :
    |(values.getD (row * block.layout.rowWidth + position) default).value -
        (block.layout.projectionAt (block.layout.rowOf values row) position).value| ≤
          (block.layout.scaleAt (block.layout.rowOf values row) position).value ↔
      ¬ (block.layout.scaleEncoding = .f32 ∧ f32ErrorExceeds
        (groupAmax (block.layout.groupOf (block.layout.rowOf values row)
          (position / block.layout.groupSize))).units
        (values.getD (row * block.layout.rowWidth + position) default).units) := by
  have hrowFinite := block.layout.finite_rowOf h.finite row
  have hgroupFinite := block.layout.finite_groupOf hrowFinite (position / block.layout.groupSize)
  obtain ⟨hmem, code, -, -, hprojection, hzero, hcell⟩ :=
    block.layout.exists_projectionAt hrowFinite (block.layout.length_rowOf h.length_eq hrow)
      block.layout.groupSize_pos hposition
  have hfinite := h.projection_finite row hrow position hposition
  rw [block.layout.getD_rowOf values hposition] at hmem hprojection hcell
  rw [hprojection] at hfinite ⊢
  obtain ⟨-, hsign, hunits, -⟩ := block.layout.scaleEncoding.units_groupScale hgroupFinite
  rw [Fp4Shape.scaleAt]
  generalize values.getD (row * block.layout.rowWidth + position) default = value at *
  generalize block.layout.groupOf (block.layout.rowOf values row)
    (position / block.layout.groupSize) = group at *
  generalize block.layout.scaleEncoding = encoding at *
  rw [value_sub_le_iff (Binary.negative_rounded ..) hsign hunits, Binary.units_rounded_eq]
  exact near_group_iff _ hgroupFinite hmem hzero hcell ((Binary.isFinite_rounded_iff ..).1 hfinite)

/-- The error of a block is within the scales exactly when no group holds an exception. -/
theorem Encodes.errorWithinScale_iff {block : CpuFp4E2M1KvBlockV1} {values : List F32}
    (h : block.Encodes values) :
    block.ErrorWithinScale values (block.layout.projection values) ↔
      ¬ F32Exception block.layout values := by
  constructor
  · rintro herror ⟨hencoding, row, hrow, position, hposition, hexceeds⟩
    refine (h.error_le_iff hrow hposition).1 ?_ ⟨hencoding, hexceeds⟩
    rw [← block.layout.getD_projection values hrow hposition]
    exact herror row hrow position hposition _
      (block.scale_eq_ok_iff.2 (h.hasScale row hrow position hposition))
  · intro hnone row hrow position hposition scale hscale
    obtain rfl := Except.ok.inj (hscale.symm.trans
      (block.scale_eq_ok_iff.2 (h.hasScale row hrow position hposition)))
    rw [block.layout.getD_projection values hrow hposition]
    exact (h.error_le_iff hrow hposition).2 fun hexceeds => hnone
      ⟨hexceeds.1, row, hrow, position, hposition, hexceeds.2⟩

/-- Every value decoded from a block that encodes a matrix differs from the value of the matrix by
at most the scale of its group, exactly when no group under a scale in single precision holds an
exception. -/
theorem encode_errorWithinScale_iff (log2Ceil : F64 → ℤ) (layout : Fp4E2M1KvLayoutV1)
    (values : List F32) (host host' : Allocator) (block : CpuFp4E2M1KvBlockV1)
    (hencode : (encode log2Ceil layout values).run host = (.ok block, host')) :
    (∀ host decoded, (block.decode.run host).1 = .ok decoded →
        block.ErrorWithinScale values decoded) ↔ ¬ F32Exception layout values := by
  obtain ⟨rfl, h⟩ := (encode_spec log2Ceil layout values host).ok rfl hencode
  rw [← h.errorWithinScale_iff]
  constructor
  · intro hall
    refine hall .granting _ ?_
    rcases h.run_decode .granting with ⟨-, hrun⟩ | ⟨⟨error, hanswer⟩, -⟩
    · exact hrun
    · exact nomatch hanswer
  · intro herror host decoded hdecode
    rcases h.run_decode host with ⟨-, hrun⟩ | ⟨-, hrun⟩
    · obtain rfl := Except.ok.inj (hrun.symm.trans hdecode)
      exact herror
    · exact nomatch hrun.symm.trans hdecode

/-- The bound at four values of several magnitudes under a power of two. -/
theorem errorWithinScale_fourValues : ∃ block host',
    (encode (fun _ => 0) (fourValuesLayout .e8m0) fourValues).run .granting = (.ok block, host') ∧
      ∀ host decoded, (block.decode.run host).1 = .ok decoded →
        block.ErrorWithinScale fourValues decoded := by
  obtain ⟨block, host', hrun⟩ := exists_run_encode_eq
    (show (((encode (fun _ => 0) (fourValuesLayout .e8m0) fourValues).run
      .granting).1).isOk = true by decide +kernel)
  refine ⟨block, host', hrun, ?_⟩
  exact (encode_errorWithinScale_iff _ _ _ _ _ _ hrun).2 fun h => nomatch h.1

/-- Eight smallest positive magnitudes are encoded under a scale of one of them and decoded to
six. -/
theorem not_errorWithinScale_eight : ∃ block host',
    (encode (fun _ => 0) (oneValueLayout .f32) [.ofBits 8]).run .granting = (.ok block, host') ∧
      ∃ decoded, (block.decode.run .granting).1 = .ok decoded ∧
        ¬ block.ErrorWithinScale [.ofBits 8] decoded := by
  obtain ⟨block, host', hrun⟩ := exists_run_encode_eq
    (show (((encode (fun _ => 0) (oneValueLayout .f32) [.ofBits 8]).run .granting).1).isOk = true
      by decide +kernel)
  obtain ⟨hlayout, h⟩ := (encode_spec _ _ _ _).ok rfl hrun
  refine ⟨block, host', hrun, block.layout.projection [.ofBits 8], ?_, ?_⟩
  · rcases h.run_decode .granting with ⟨-, hdecode⟩ | ⟨⟨error, hanswer⟩, -⟩
    · exact hdecode
    · exact nomatch hanswer
  · rw [h.errorWithinScale_iff, not_not, hlayout]
    exact ⟨rfl, 0, by decide, 0, by decide, by decide +kernel⟩

end CpuFp4E2M1KvBlockV1

end NNIS
