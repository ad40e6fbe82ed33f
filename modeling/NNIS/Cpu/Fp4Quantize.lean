import NNIS.Cpu.Fp4Scale

/-!
# The code of a value

A magnitude `v` under a scale `s` lies in the cell of a code when it is not below the midpoint
before the magnitude of the code and not above the midpoint after it; a midpoint belongs to the even
one of its neighbours. The quantizer finds the cell of the exact quotient although it divides in
double precision, and the code of the cell is the nearest one.

## Main definitions

* `InCell` — the cell of a code.

## Main results

* `quantize_spec` — the quantizer finds the cell and keeps the sign.
* `InCell.nearest` — the code of the cell is the nearest one, the even one of two.
* `decodeCode_quantize` — the value that a code is decoded to.
-/

set_option autoImplicit false

namespace NNIS

/-- A magnitude lies between the midpoints around the magnitude of a code; a midpoint belongs to
the even code. -/
structure InCell (v s code : ℕ) : Prop where
  lt_eight : code < 8
  lower : ∀ c, c + 1 = code →
    (fp4Halves[c]! + fp4Halves[code]!) * s < 4 * v ∨
      (fp4Halves[c]! + fp4Halves[code]!) * s = 4 * v ∧ code % 2 = 0
  upper : code + 1 < 8 →
    4 * v < (fp4Halves[code]! + fp4Halves[code + 1]!) * s ∨
      4 * v = (fp4Halves[code]! + fp4Halves[code + 1]!) * s ∧ code % 2 = 0

theorem fp4Halves_mono {c c' : ℕ} (h : c ≤ c') (h' : c' < 8) : fp4Halves[c]! ≤ fp4Halves[c']! := by
  have hall : ∀ c' : Fin 8, ∀ c : Fin 8, c ≤ c' → fp4Halves[c.val]! ≤ fp4Halves[c'.val]! := by
    decide
  exact hall ⟨c', h'⟩ ⟨c, by omega⟩ h

theorem fp4Halves_strictMono {c c' : ℕ} (h : c < c') (h' : c' < 8) :
    fp4Halves[c]! < fp4Halves[c']! := by
  have hall : ∀ c' : Fin 8, ∀ c : Fin 8, c < c' → fp4Halves[c.val]! < fp4Halves[c'.val]! := by
    decide
  exact hall ⟨c', h'⟩ ⟨c, by omega⟩ h

/-- The distance of a magnitude from the magnitude of a code, in halves. -/
def fp4Distance (v s code : ℕ) : ℕ := (2 * v - fp4Halves[code]! * s : ℤ).natAbs

/-- The code of a cell is the nearest one, and the even one of two. -/
theorem InCell.nearest {v s code : ℕ} (h : InCell v s code) (hs : 0 < s) {c : ℕ} (hc : c < 8) :
    fp4Distance v s code ≤ fp4Distance v s c ∧
      (fp4Distance v s c = fp4Distance v s code → c = code ∨ code % 2 = 0) := by
  have hcode := h.lt_eight
  rcases Nat.lt_trichotomy c code with hlt | rfl | hgt
  · -- A smaller code is beyond the midpoint below.
    obtain ⟨b, rfl⟩ : ∃ b, code = b + 1 := ⟨code - 1, by omega⟩
    have hmono : (fp4Halves[c]! + fp4Halves[b + 1]!) * s ≤
        (fp4Halves[b]! + fp4Halves[b + 1]!) * s :=
      Nat.mul_le_mul_right s (Nat.add_le_add_right (fp4Halves_mono (by omega) (by omega)) _)
    have hless : fp4Halves[c]! * s < fp4Halves[b + 1]! * s :=
      Nat.mul_lt_mul_of_pos_right (fp4Halves_strictMono hlt hcode) hs
    have hmid := h.lower b rfl
    rw [Nat.add_mul] at hmono
    rw [fp4Distance, fp4Distance]
    refine ⟨by omega, fun heq => Or.inr ?_⟩
    rcases hmid with hmid | hmid
    · omega
    · exact hmid.2
  · exact ⟨Nat.le_refl _, fun _ => Or.inl rfl⟩
  · have hmono : (fp4Halves[code]! + fp4Halves[code + 1]!) * s ≤
        (fp4Halves[code]! + fp4Halves[c]!) * s :=
      Nat.mul_le_mul_right s (Nat.add_le_add_left (fp4Halves_mono (by omega) hc) _)
    have hless : fp4Halves[code]! * s < fp4Halves[c]! * s :=
      Nat.mul_lt_mul_of_pos_right (fp4Halves_strictMono hgt hc) hs
    have hmid := h.upper (by omega)
    rw [Nat.add_mul _ fp4Halves[c]!] at hmono
    rw [fp4Distance, fp4Distance]
    refine ⟨by omega, fun heq => Or.inr ?_⟩
    rcases hmid with hmid | hmid
    · omega
    · exact hmid.2

/-- A magnitude lies in one cell only. -/
theorem InCell.unique {v s code code' : ℕ} (h : InCell v s code) (h' : InCell v s code')
    (hs : 0 < s) : code = code' := by
  wlog hlt : code < code' generalizing code code'
  · rcases Nat.eq_or_lt_of_le (Nat.not_lt.1 hlt) with heq | hlt'
    · exact heq.symm
    · exact (this h' h hlt').symm
  -- The midpoint after the smaller code is not above the midpoint before the greater one.
  have hcode' := h'.lt_eight
  obtain ⟨b, rfl⟩ : ∃ b, code' = b + 1 := ⟨code' - 1, by omega⟩
  have hupper := h.upper (by omega)
  have hlower := h'.lower b rfl
  rcases Nat.eq_or_lt_of_le (Nat.lt_succ_iff.1 hlt) with rfl | hgap
  · omega
  · have hfirst := fp4Halves_strictMono hgap (by omega)
    have hsecond : fp4Halves[code + 1]! ≤ fp4Halves[b + 1]! := fp4Halves_mono (by omega) hcode'
    have hmul : (fp4Halves[code]! + fp4Halves[code + 1]!) * s <
        (fp4Halves[b]! + fp4Halves[b + 1]!) * s :=
      Nat.mul_lt_mul_of_pos_right (by omega) hs
    omega

/-! ### The search of the quantizer -/

private theorem units_wide_magnitude (index : Fin 8) :
    ((fp4E2m1Magnitudes index).convert binary64).isFinite = true ∧
      ((fp4E2m1Magnitudes index).convert binary64).negative = false ∧
      ((fp4E2m1Magnitudes index).convert binary64).units =
        2 * fp4Halves[index.val]! * 2 ^ 1072 := by
  revert index
  decide +kernel

private theorem units_midpoint (index : Fin 7) :
    ((((fp4E2m1Magnitudes index.castSucc).convert binary64).add
        ((fp4E2m1Magnitudes index.succ).convert binary64)).div (.ofBits (2 ^ 62)) : F64).isFinite =
          true ∧
      ((((fp4E2m1Magnitudes index.castSucc).convert binary64).add
        ((fp4E2m1Magnitudes index.succ).convert binary64)).div (.ofBits (2 ^ 62)) : F64).negative =
          false ∧
      ((((fp4E2m1Magnitudes index.castSucc).convert binary64).add
        ((fp4E2m1Magnitudes index.succ).convert binary64)).div (.ofBits (2 ^ 62)) : F64).units =
          (fp4Halves[index.val]! + fp4Halves[index.val + 1]!) * 2 ^ 1072 := by
  revert index
  decide +kernel

/-- The search finds the cell of its argument. -/
private theorem magnitudeCode_spec {x : F64} (hfinite : x.isFinite = true)
    (hsign : x.negative = false) {v s : ℕ} (hs : 0 < s)
    (hlt : ∀ q, 0 < q → q < 2 ^ 5 → (x.units < q * 2 ^ 1072 ↔ 4 * v < q * s))
    (hgt : ∀ q, 0 < q → q < 2 ^ 5 - 1 → (q * 2 ^ 1072 < x.units ↔ q * s < 4 * v)) :
    ∃ code, magnitudeCode x = UInt8.ofNat code ∧ InCell v s code := by
  have hmagnitude : ∀ index : Fin 8, 0 < fp4Halves[index.val]! →
      (x.lt ((fp4E2m1Magnitudes index).convert binary64) = true ↔
        4 * v < 2 * fp4Halves[index.val]! * s) := by
    intro index hpos
    obtain ⟨hfin, hneg, hunits⟩ := units_wide_magnitude index
    have hle := fp4Halves_le index
    rw [Binary.lt_iff_units_lt hfinite hfin hsign hneg, hunits]
    exact hlt _ (by omega) (by omega)
  have hhalves : ∀ index : Fin 7, 0 < fp4Halves[index.val + 1]! ∧
      fp4Halves[index.val]! < fp4Halves[index.val + 1]! ∧ fp4Halves[index.val + 1]! ≤ 12 ∧
        fp4Halves[index.val]! ≤ 8 := by decide
  rw [magnitudeCode]
  cases hfind : (List.finRange 7).find?
      fun index => x.lt ((fp4E2m1Magnitudes index.succ).convert binary64) with
  | none =>
    -- No magnitude is above the quotient, in particular not the largest one.
    rw [List.find?_eq_none] at hfind
    have hlast := hfind 6 (List.mem_finRange 6)
    rw [hmagnitude (Fin.succ 6) (by decide)] at hlast
    have htop : fp4Halves[(Fin.succ (6 : Fin 7)).val]! = 12 := rfl
    rw [htop] at hlast
    refine ⟨7, rfl, by decide, fun c hc => Or.inl ?_, fun h => absurd h (by decide)⟩
    obtain rfl : c = 6 := by omega
    have hmid : fp4Halves[6]! + fp4Halves[7]! = 20 := rfl
    rw [hmid]
    omega
  | some index =>
    obtain ⟨hbelow, i, hi, hget, hbefore⟩ := List.find?_eq_some_iff_getElem.1 hfind
    rw [List.getElem_finRange] at hget
    obtain rfl : i = index.val := by
      rw [← hget]
      rfl
    obtain ⟨hpos, hless, htop, hlow⟩ := hhalves index
    obtain ⟨hfin, hneg, hunits⟩ := units_midpoint index
    have hbelow' := (hmagnitude index.succ hpos).1 hbelow
    have hmidLt := Binary.lt_iff_units_lt hfinite hfin hsign hneg
    have hmidGt := Binary.lt_iff_units_lt hfin hfinite hneg hsign
    rw [hunits, hlt _ (by omega) (by omega)] at hmidLt
    rw [hunits, hgt _ (by omega) (by omega)] at hmidGt
    -- The midpoint before the magnitude below the quotient is below it too.
    have hlower : ∀ c, c + 1 = index.val →
        (fp4Halves[c]! + fp4Halves[index.val]!) * s < 4 * v := by
      intro c hc
      have hnot := hbefore c (by omega)
      rw [List.getElem_finRange, Bool.not_eq_true'] at hnot
      obtain ⟨hpos', hless', -, -⟩ := hhalves ⟨c, by omega⟩
      have hge : ¬ 4 * v < 2 * fp4Halves[c + 1]! * s := fun h =>
        absurd ((hmagnitude (Fin.succ ⟨c, by omega⟩) hpos').2 h) (by
          rw [Bool.not_eq_true]
          exact hnot)
      refine Nat.lt_of_lt_of_le ?_ (Nat.not_lt.1 hge)
      rw [← hc]
      exact Nat.mul_lt_mul_of_pos_right (by dsimp only at hless'; omega) hs
    have hupper : index.val + 1 + 1 < 8 →
        4 * v < (fp4Halves[index.val + 1]! + fp4Halves[index.val + 1 + 1]!) * s := by
      intro hnext
      obtain ⟨-, hless', -, -⟩ := hhalves ⟨index.val + 1, by omega⟩
      refine hbelow'.trans (Nat.mul_lt_mul_of_pos_right ?_ hs)
      change 2 * fp4Halves[index.val + 1]! < _
      dsimp only at hless'
      omega
    have hsucc : UInt8.ofNat index.val + 1 = UInt8.ofNat (index.val + 1) :=
      (UInt8.ofNat_add index.val 1).symm
    dsimp only
    by_cases hbelowMid : 4 * v < (fp4Halves[index.val]! + fp4Halves[index.val + 1]!) * s
    · rw [if_pos (hmidLt.2 hbelowMid)]
      exact ⟨index.val, rfl, by omega, fun c hc => Or.inl (hlower c hc),
        fun _ => Or.inl hbelowMid⟩
    · rw [if_neg fun h => hbelowMid (hmidLt.1 h)]
      by_cases haboveMid : (fp4Halves[index.val]! + fp4Halves[index.val + 1]!) * s < 4 * v
      · rw [if_pos (hmidGt.2 haboveMid), hsucc]
        refine ⟨index.val + 1, rfl, by omega, fun c hc => ?_, fun hnext => Or.inl (hupper hnext)⟩
        obtain rfl : c = index.val := by omega
        exact Or.inl haboveMid
      · rw [if_neg fun h => haboveMid (hmidGt.1 h)]
        have htie : 4 * v = (fp4Halves[index.val]! + fp4Halves[index.val + 1]!) * s := by omega
        by_cases heven : index.val % 2 = 0
        · rw [if_pos heven]
          exact ⟨index.val, rfl, by omega, fun c hc => Or.inl (hlower c hc),
            fun _ => Or.inr ⟨htie, heven⟩⟩
        · rw [if_neg heven, hsucc]
          refine ⟨index.val + 1, rfl, by omega, fun c hc => ?_, fun hnext => Or.inl (hupper hnext)⟩
          obtain rfl : c = index.val := by omega
          exact Or.inr ⟨htie.symm, by omega⟩

/-! ### Quantized values -/

/-- The bit of a sign in a code. -/
def fp4SignBit (negative : Bool) : UInt8 := if negative then 0x8 else 0x0

private theorem signBit_or (negative : Bool) {code : ℕ} (h : code < 8) :
    ((fp4SignBit negative ||| UInt8.ofNat code) &&& 0x7).toNat = code ∧
      decide ((fp4SignBit negative ||| UInt8.ofNat code) &&& 0x8 ≠ 0) = negative := by
  have hall : ∀ negative : Bool, ∀ code : Fin 8,
      ((fp4SignBit negative ||| UInt8.ofNat code) &&& 0x7).toNat = code.val ∧
        decide ((fp4SignBit negative ||| UInt8.ofNat code) &&& 0x8 ≠ 0) = negative := by
    decide
  exact hall negative ⟨code, h⟩

/-- The quantizer keeps the sign and finds the cell of the magnitude; under a zero scale every code
is zero. -/
theorem quantize_spec {value : F32} (hvalue : value.isFinite = true) {scale : F64} {s : ℕ}
    (hfinite : scale.isFinite = true) (hsign : scale.negative = false)
    (hunits : scale.units = s * 2 ^ 925) (hs : F32.Digits s) :
    ∃ code < 8, quantize value scale = fp4SignBit value.negative ||| UInt8.ofNat code ∧
      (s = 0 → code = 0) ∧ (0 < s → InCell value.units s code) := by
  rw [quantize]
  by_cases hzero : scale.isZero = true
  · have hs0 : s = 0 := by
      have hscale := Binary.units_eq_zero_iff.2 hzero
      rw [hunits] at hscale
      exact (Nat.mul_eq_zero.1 hscale).resolve_right (pow_ne_zero 925 two_ne_zero)
    refine ⟨0, by decide, ?_, fun _ => rfl, fun hpos => absurd hpos (by omega)⟩
    rw [if_pos hzero]
    exact (UInt8.or_zero).symm
  · have hpos : 0 < s := Nat.pos_of_ne_zero fun h => hzero (Binary.units_eq_zero_iff.1 (by
      rw [hunits, h, Nat.zero_mul]))
    obtain ⟨hwide, hwideFinite, hwideSign⟩ := F32.convert_binary64 (x := value.abs) hvalue
    set x := (value.abs.convert binary64).div scale with hx
    have hdiv : x = .rounded false (value.units * 2 ^ 1074) s := by
      rw [hx, Binary.div_eq_rounded_of_ne_zero hwideFinite hfinite (by
        rw [hunits]
        exact (Nat.mul_pos hpos (pow_pos two_pos _)).ne'), hwideSign, hsign, hwide, hunits,
        Nat.mul_right_comm, Binary.rounded_mul_right _ _ _ (pow_pos two_pos _),
        point_binary64]
      rfl
    have hdigits := F32.digits_units hvalue
    have hquotient : x.units = F32.quotient value.units s := by
      rw [hdiv]
      rfl
    have hxFinite : x.isFinite = true := by
      have hlast : (1299 + 1) * 2 ^ 52 < binary64.infinity := by decide
      refine Binary.isFinite_of_magnitude_le (p := (1299 + 1) * 2 ^ 52) ?_ hlast
      rw [hdiv]
      refine Binary.magnitude_rounded_le _ hpos ?_
      rw [F64.units_start 1299 1351 rfl, ← two_pow_mul 277 1074 1351 rfl]
      exact (Nat.mul_le_mul_right _ (F32.units_lt_two_pow hvalue).le).trans
        (Nat.le_mul_of_pos_right _ hpos)
    have hxSign : x.negative = false := by
      rw [hdiv]
      rfl
    obtain ⟨code, hcode, hcell⟩ := magnitudeCode_spec hxFinite hxSign hpos
      (fun q hq hq' => by rw [hquotient]; exact F32.quotient_lt_iff hdigits hs hpos hq hq')
      fun q hq hq' => by rw [hquotient]; exact F32.lt_quotient_iff hdigits hs hpos hq hq'
    refine ⟨code, hcell.lt_eight, ?_, fun h => absurd h hpos.ne', fun _ => hcell⟩
    rw [if_neg hzero, hcode]
    rfl

/-- What a quantized value is decoded to: the magnitude of its cell under its sign, rounded once. -/
theorem decodeCode_quantize {value : F32} (hvalue : value.isFinite = true) {scale : F64} {s : ℕ}
    (hfinite : scale.isFinite = true) (hsign : scale.negative = false)
    (hunits : scale.units = s * 2 ^ 925) (hs : F32.Digits s) :
    ∃ code < 8, decodeCode (quantize value scale) scale =
        .rounded value.negative (fp4Halves[code]! * s) 2 ∧
      (s = 0 → code = 0) ∧ (0 < s → InCell value.units s code) := by
  obtain ⟨code, hlt, hcode, hzero, hcell⟩ := quantize_spec hvalue hfinite hsign hunits hs
  obtain ⟨hindex, hneg⟩ := signBit_or value.negative hlt
  refine ⟨code, hlt, ?_, hzero, hcell⟩
  rw [decodeCode_eq_rounded _ hfinite hsign hunits hs, hcode, hindex, hneg]

end NNIS
