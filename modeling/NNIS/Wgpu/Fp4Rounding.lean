import NNIS.Wgpu.Fp4

/-!
# The rounding of the FP4 kernel

The integer routine of the kernel reads the block of the result off the leading digit. From the
first normal magnitude on the rounded significand has 24 digits, or is the next power of two, which
is carried into the exponent; below it the significand is the pattern. Both are the rounding of the
format.

## Main results

* `roundBits_eq_round` — the routine is one rounding to single precision.
-/

set_option autoImplicit false

namespace NNIS

theorem shiftNearestEven_eq {s : ℕ} (hs : 0 < s) (p : ℕ) :
    shiftNearestEven p s = Format.nearestEven p (2 ^ s) := by
  obtain ⟨s, rfl⟩ : ∃ t, s = t + 1 := ⟨s - 1, by omega⟩
  have hhalf : 2 ^ (s + 1) = 2 * 2 ^ s := Nat.pow_succ'
  simp only [shiftNearestEven, Format.nearestEven, Nat.shiftRight_eq_div_pow, Nat.one_shiftLeft,
    Nat.and_two_pow_sub_one_eq_mod, Nat.add_sub_cancel, Nat.and_one_is_mod]
  rw [hhalf]
  split_ifs <;> omega

private theorem msb_eq {p : ℕ} (hp : p ≠ 0) (hlt : p < 2 ^ 28) :
    31 - countLeadingZeros p = p.log2 := by
  have hlog : p.log2 < 28 := (Nat.log2_lt hp).2 hlt
  rw [countLeadingZeros, if_neg hp]
  omega

private theorem log2_mul_two_pow {p : ℕ} (hp : p ≠ 0) (t : ℕ) :
    (p * 2 ^ t).log2 = p.log2 + t := by
  rw [Nat.log2_eq_iff (Nat.mul_ne_zero hp (Nat.two_pow_pos t).ne')]
  constructor
  · rw [Nat.pow_add]
    exact Nat.mul_le_mul_right _ (Nat.log2_self_le hp)
  · rw [Nat.add_right_comm, Nat.pow_add]
    exact Nat.mul_lt_mul_of_pos_right Nat.lt_log2_self (Nat.two_pow_pos t)

/-- The digits of a normal result: the significand shifted to 24 digits. -/
private theorem nearestEven_normal {p t : ℕ} (hshift : 24 ≤ p.log2 + t) :
    Format.nearestEven (p * 2 ^ t) (2 * 2 ^ (p.log2 + t - 24)) =
      if p.log2 ≤ 23 then p * 2 ^ (23 - p.log2)
      else Format.nearestEven p (2 ^ (p.log2 - 23)) := by
  split_ifs with hlog
  · have hdivisor : 2 * 2 ^ (p.log2 + t - 24) = 2 ^ (p.log2 + t - 23) := by
      rw [← Nat.pow_succ']
      exact congrArg _ (by omega)
    have hnumerator : p * 2 ^ t = p * 2 ^ (23 - p.log2) * 2 ^ (p.log2 + t - 23) := by
      rw [Nat.mul_assoc, ← Nat.pow_add]
      exact congrArg (p * 2 ^ ·) (by omega)
    rw [hdivisor, hnumerator, Format.nearestEven_mul_self _ (Nat.two_pow_pos _)]
  · have hdivisor : 2 * 2 ^ (p.log2 + t - 24) = 2 ^ (p.log2 - 23) * 2 ^ t := by
      rw [← Nat.pow_succ', ← Nat.pow_add]
      exact congrArg _ (by omega)
    rw [hdivisor, Format.nearestEven_mul_right _ _ (Nat.two_pow_pos t)]

private theorem nearestEven_ge {n d m : ℕ} (h : m * d ≤ n) (hd : 0 < d) :
    m ≤ Format.nearestEven n d := by
  have hle : m ≤ n / d := (Nat.le_div_iff_mul_le hd).2 h
  unfold Format.nearestEven
  split_ifs <;> omega

/-- The rounded significand of a normal result. -/
private theorem significand_bounds {p : ℕ} (hp : p ≠ 0) (hlog : 23 < p.log2) :
    2 ^ 23 ≤ Format.nearestEven p (2 ^ (p.log2 - 23)) ∧
      Format.nearestEven p (2 ^ (p.log2 - 23)) ≤ 2 ^ 24 := by
  constructor
  · refine nearestEven_ge ?_ (Nat.two_pow_pos _)
    rw [← Nat.pow_add, Nat.add_sub_cancel' (Nat.le_of_lt hlog)]
    exact Nat.log2_self_le hp
  · refine Format.nearestEven_le (Nat.two_pow_pos _) ?_
    rw [← Nat.pow_add, show 24 + (p.log2 - 23) = p.log2 + 1 by omega]
    exact Nat.le_of_lt Nat.lt_log2_self

/-- A normal pattern by its parts. -/
private theorem pack_eq {sh sig : ℕ} (hlow : 2 ^ 23 ≤ sig) (hhigh : sig < 2 ^ 24) (hsh : sh < 256) :
    (sh + 1) <<< 23 % wordLimit32 ||| (sig &&& 0x7FFFFF) = sh * 2 ^ 23 + sig := by
  have hmask : sig &&& 0x7FFFFF = sig - 2 ^ 23 := by
    have hmod := Nat.and_two_pow_sub_one_eq_mod sig 23
    rw [show 2 ^ 23 - 1 = 0x7FFFFF by rfl] at hmod
    omega
  have hshift : (sh + 1) <<< 23 % wordLimit32 = (sh + 1) <<< 23 := by
    rw [Nat.shiftLeft_eq]
    exact Nat.mod_eq_of_lt (by rw [wordLimit32]; omega)
  rw [hmask, hshift, ← Nat.shiftLeft_add_eq_or_of_lt (by omega), Nat.shiftLeft_eq]
  omega

/-- A normal result from its block and its significand. -/
private theorem finish_eq {s sig : ℕ} {x : ℤ} (hx : x = s - 126) (hlow : 2 ^ 23 ≤ sig)
    (hhigh : sig < 2 ^ 24) :
    (if 127 < x then 0x7F800000
      else (x + 127).toNat <<< 23 % wordLimit32 ||| (sig &&& 0x7FFFFF)) =
      min (s * 2 ^ 23 + sig) (255 * 2 ^ 23) := by
  have hexponent : (x + 127).toNat = s + 1 := by omega
  rw [hexponent]
  split_ifs with hoverflow
  · exact (Nat.min_eq_right (by omega)).symm
  · rw [pack_eq hlow hhigh (by omega), Nat.min_eq_left (by omega)]

private theorem log2_half (n : ℕ) : (n / 2).log2 = n.log2 - 1 := by
  rw [Nat.log2_def n]
  split_ifs with h
  · rw [Nat.add_sub_cancel]
  · rw [Nat.div_eq_of_lt (by omega), Nat.log2_zero]

/-- The routine of the kernel rounds once. -/
theorem roundBits_eq_round {p : ℕ} (hlt : p < 2 ^ 28) (t : ℕ) :
    roundBits p ((t : ℤ) - 150) = binary32.round (p * 2 ^ t) 2 := by
  rcases eq_or_ne p 0 with rfl | hp
  · rw [Nat.zero_mul]
    rfl
  have hlog : p.log2 < 28 := (Nat.log2_lt hp).2 hlt
  have hquotient : (p * 2 ^ t / 2).log2 = p.log2 + t - 1 := by
    rw [log2_half, log2_mul_two_pow hp]
  have hround : binary32.round (p * 2 ^ t) 2 = min ((p.log2 + t - 24) * 2 ^ 23 +
      Format.nearestEven (p * 2 ^ t) (2 * 2 ^ (p.log2 + t - 24))) (255 * 2 ^ 23) := by
    have hshift : p.log2 + t - 1 - 23 = p.log2 + t - 24 := by omega
    rw [Format.round, hquotient]
    simp only [hshift]
    rfl
  rw [hround, roundBits, if_neg hp, msb_eq hp hlt]
  dsimp only
  rcases Nat.lt_or_ge (p.log2 + t) 24 with hsub | hnormal
  · -- Below the first normal magnitude nothing is shifted out but a half.
    have hzero : p.log2 + t - 24 = 0 := by omega
    rw [if_neg (by omega), hzero, Nat.zero_mul, Nat.zero_add, Nat.pow_zero, Nat.mul_one]
    have hbound : p * 2 ^ t < 2 ^ 24 := by
      have hself := Nat.lt_log2_self (n := p * 2 ^ t)
      rw [log2_mul_two_pow hp] at hself
      exact Nat.lt_of_lt_of_le hself (Nat.pow_le_pow_right (by decide) (by omega))
    have hmin : Format.nearestEven (p * 2 ^ t) 2 ≤ 255 * 2 ^ 23 :=
      Format.nearestEven_le (by decide) (by omega)
    rw [Nat.min_eq_left hmin]
    rcases Nat.eq_zero_or_pos t with rfl | ht
    · rw [if_neg (by omega), if_neg (by omega), Nat.pow_zero, Nat.mul_one]
      exact shiftNearestEven_eq Nat.one_pos p
    · obtain ⟨t, rfl⟩ : ∃ u, t = u + 1 := ⟨t - 1, by omega⟩
      have hexponent : (-(-(((t + 1 : ℕ) : ℤ) - 150 + 149))).toNat = t := by omega
      rw [Nat.pow_succ, ← Nat.mul_assoc] at hbound ⊢
      rw [if_pos (by omega), hexponent, Format.nearestEven_mul_self _ (by decide), Nat.shiftLeft_eq]
      exact Nat.mod_eq_of_lt (by rw [wordLimit32]; omega)
  · have hx : (p.log2 : ℤ) + ((t : ℤ) - 150) = (p.log2 + t - 24 : ℕ) - 126 := by omega
    rw [if_pos (by omega), nearestEven_normal hnormal]
    rcases Nat.lt_or_ge 23 p.log2 with hlarge | hsmall
    · obtain ⟨hlow, hhigh⟩ := significand_bounds hp hlarge
      have hshift : ((p.log2 : ℤ) - 23).toNat = p.log2 - 23 := by omega
      rw [if_neg (show ¬ (p.log2 : ℤ) - 23 ≤ 0 by omega),
        if_neg (show ¬ p.log2 ≤ 23 by omega), hshift, shiftNearestEven_eq (by omega)]
      by_cases hcarry : Format.nearestEven p (2 ^ (p.log2 - 23)) = 0x1000000
      · rw [if_pos hcarry, hcarry]
        have hfinish := finish_eq (s := p.log2 + t - 24 + 1)
          (x := (p.log2 : ℤ) + ((t : ℤ) - 150) + 1) (by omega) (Nat.le_refl (2 ^ 23)) (by decide)
        refine hfinish.trans (congrArg (min · _) ?_)
        omega
      · rw [if_neg hcarry]
        exact finish_eq hx hlow (by omega)
    · have hlow : 2 ^ 23 ≤ p * 2 ^ (23 - p.log2) := by
        calc 2 ^ 23 = 2 ^ p.log2 * 2 ^ (23 - p.log2) := by
              rw [← Nat.pow_add, Nat.add_sub_cancel' hsmall]
          _ ≤ p * 2 ^ (23 - p.log2) := Nat.mul_le_mul_right _ (Nat.log2_self_le hp)
      have hhigh : p * 2 ^ (23 - p.log2) < 2 ^ 24 := by
        calc p * 2 ^ (23 - p.log2) < 2 ^ (p.log2 + 1) * 2 ^ (23 - p.log2) :=
              Nat.mul_lt_mul_of_pos_right Nat.lt_log2_self (Nat.two_pow_pos _)
          _ = 2 ^ 24 := by
              rw [← Nat.pow_add]
              exact congrArg _ (by omega)
      have hshift : (-((p.log2 : ℤ) - 23)).toNat = 23 - p.log2 := by omega
      have hword : p <<< (23 - p.log2) % wordLimit32 = p * 2 ^ (23 - p.log2) := by
        rw [Nat.shiftLeft_eq]
        exact Nat.mod_eq_of_lt (Nat.lt_trans hhigh (by decide))
      rw [if_pos (show (p.log2 : ℤ) - 23 ≤ 0 by omega), if_pos hsmall, hshift, hword]
      exact finish_eq hx hlow hhigh

end NNIS
