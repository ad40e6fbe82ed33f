import NNIS.Cpu.Fp4KvRoundTrip
import NNIS.Wgpu.Fp4Rounding

/-!
# The WGPU decode of FP4 blocks is that of the CPU

The host validation accepts what the reassembly of the CPU accepts. The kernel finds the code and
the scale of a logical value in the uploaded words, forms the product of their significands and
rounds it once, as the CPU does.

## Main results

* `kernelByte_paddedWords`, `getElem?_paddedWords` — the bytes of an upload.
* `fp4Product_spec` — the product is that of the magnitude and the scale.
* `validateParts_eq_ok_iff`, `fromParts_delivers`, `fromParts_holds` — what becomes a block.
* `wgpuFp4_decode_bitExact`.
-/

set_option autoImplicit false

namespace NNIS

/-! ### Uploads -/

theorem length_padToWords (bytes : List UInt8) :
    (padToWords bytes).length = max ((bytes.length + 3) / 4) 1 * 4 := by
  rw [padToWords, List.length_append, List.length_replicate]
  omega

theorem getD_padToWords (bytes : List UInt8) (i : ℕ) :
    (padToWords bytes).getD i 0 = bytes.getD i 0 := by
  rw [padToWords, List.getD_eq_getElem?_getD, List.getD_eq_getElem?_getD]
  rcases Nat.lt_or_ge i bytes.length with hi | hi
  · rw [List.getElem?_append_left hi]
  · rw [List.getElem?_append_right hi, List.getElem?_eq_none hi, List.getElem?_replicate]
    split_ifs <;> rfl

/-- The word of four bytes. -/
def leWord (data : List UInt8) (i : ℕ) : ℕ :=
  (data.getD i 0).toNat + 2 ^ 8 * ((data.getD (i + 1) 0).toNat +
    2 ^ 8 * ((data.getD (i + 2) 0).toNat + 2 ^ 8 * (data.getD (i + 3) 0).toNat))

private theorem getElem?_wordsOfLeBytes {data : List UInt8} {k : ℕ} (h : k * 4 + 4 ≤ data.length) :
    (wordsOfLeBytes data)[k]? = some (leWord data (k * 4)) := by
  induction k generalizing data with
  | zero =>
    match data, h with
    | b₀ :: b₁ :: b₂ :: b₃ :: rest, _ => rfl
  | succ k ih =>
    match data, h with
    | b₀ :: b₁ :: b₂ :: b₃ :: rest, h =>
      have hrest : k * 4 + 4 ≤ rest.length := by
        simp only [List.length_cons] at h
        omega
      rw [wordsOfLeBytes, List.getElem?_cons_succ, ih hrest, Nat.succ_mul]
      rfl

/-- A word of an upload. -/
theorem getElem?_paddedWords {bytes : List UInt8} {k : ℕ} (h : k * 4 < bytes.length) :
    (paddedWords bytes)[k]? = some (leWord bytes (k * 4)) := by
  have hlength := length_padToWords bytes
  rw [paddedWords, getElem?_wordsOfLeBytes (by omega)]
  simp only [leWord, getD_padToWords]

private theorem and_ff (n : ℕ) : n &&& 0xFF = n % 2 ^ 8 := Nat.and_two_pow_sub_one_eq_mod n 8

/-- A byte of an upload. -/
theorem kernelByte_paddedWords {ε : Type} {bytes : List UInt8} {i : ℕ} (h : i < bytes.length) :
    (kernelByte (paddedWords bytes) i : Outcome ε ℕ) = .ok (bytes.getD i 0).toNat := by
  obtain ⟨q, r, hr, rfl⟩ : ∃ q r, r < 4 ∧ i = q * 4 + r :=
    ⟨i / 4, i % 4, Nat.mod_lt i (by decide), (Nat.div_add_mod' i 4).symm⟩
  have hword : (q * 4 + r) >>> 2 = q := by
    rw [Nat.shiftRight_eq_div_pow]
    omega
  have hbyte : (q * 4 + r) &&& 3 = r := by
    rw [show 3 = 2 ^ 2 - 1 by rfl, Nat.and_two_pow_sub_one_eq_mod]
    omega
  have h0 := (bytes.getD (q * 4) 0).toNat_lt
  have h1 := (bytes.getD (q * 4 + 1) 0).toNat_lt
  have h2 := (bytes.getD (q * 4 + 2) 0).toNat_lt
  have h3 := (bytes.getD (q * 4 + 3) 0).toNat_lt
  have hget := getElem?_paddedWords (show q * 4 < bytes.length by omega)
  rw [kernelByte, hword, hbyte, Outcome.index_eq_ok_iff.2 hget, Except.ok_bind]
  refine congrArg _ ?_
  rw [and_ff, Nat.shiftRight_eq_div_pow, leWord]
  have hcases : r = 0 ∨ r = 1 ∨ r = 2 ∨ r = 3 := by omega
  rcases hcases with rfl | rfl | rfl | rfl
  · simp only [Nat.add_zero, Nat.zero_mul, Nat.pow_zero, Nat.div_one]
    omega
  all_goals omega

/-! ### The scale of a group -/

private theorem toBits_eq_magnitude {x : F32} (h : x.negative = false) :
    x.toBits = x.magnitude := by
  rw [Binary.toBits, h]
  simp

/-- The stored word of a scale in single precision. -/
private theorem word_of_region {scales : List UInt8} {group : ℕ} {b₀ b₁ b₂ b₃ : UInt8}
    (h : region scales (group * 4) 4 = [b₀, b₁, b₂, b₃])
    (hsign : (F32.ofLeBytes b₀ b₁ b₂ b₃).negative = false) :
    (paddedWords scales)[group]? = some (F32.ofLeBytes b₀ b₁ b₂ b₃).magnitude := by
  have hget (j : ℕ) (hj : j < 4) : scales[group * 4 + j]? = [b₀, b₁, b₂, b₃][j]? := by
    rw [← h, region, List.getElem?_take_of_lt hj, List.getElem?_drop]
  have hlength : group * 4 < scales.length := by
    have hfirst := hget 0 (by decide)
    exact (List.getElem?_eq_some_iff.1 hfirst).1
  have hgetD (j : ℕ) (hj : j < 4) :
      scales.getD (group * 4 + j) 0 = [b₀, b₁, b₂, b₃].getD j 0 := by
    rw [List.getD_eq_getElem?_getD, hget j hj, List.getD_eq_getElem?_getD]
  have hb₀ : scales.getD (group * 4) 0 = b₀ := hgetD 0 (by decide)
  have hb₁ : scales.getD (group * 4 + 1) 0 = b₁ := hgetD 1 (by decide)
  have hb₂ : scales.getD (group * 4 + 2) 0 = b₂ := hgetD 2 (by decide)
  have hb₃ : scales.getD (group * 4 + 3) 0 = b₃ := hgetD 3 (by decide)
  rw [getElem?_paddedWords hlength, leWord, hb₀, hb₁, hb₂, hb₃, ← toBits_eq_magnitude hsign,
    F32.ofLeBytes]
  refine congrArg _ (F32.toBits_ofBits ?_).symm
  have h0 := b₀.toNat_lt
  have h1 := b₁.toNat_lt
  have h2 := b₂.toNat_lt
  have h3 := b₃.toNat_lt
  omega

private theorem halves_le (code : UInt8) : fp4Halves[(code &&& 0x7).toNat]! ≤ 12 := by
  have hlt := and_seven_lt code
  generalize (code &&& 0x7).toNat = n at hlt
  revert hlt
  revert n
  decide

/-- The significand and the exponent of the product of a magnitude and the scale of a group. -/
theorem fp4Product_spec {ε : Type} {encoding : Fp4ScaleEncodingV1} {scales : List UInt8}
    {group : ℕ} {scale : F64} (h : encoding.HasScale scales group scale) (code : UInt8) :
    ∃ product : ℕ × ℤ,
      (fp4Product (paddedWords scales) encoding.deviceWord fp4Halves[(code &&& 0x7).toNat]! group :
        Outcome ε (ℕ × ℤ)) = .ok product ∧
      roundBits product.1 product.2 = (decodeCode code scale).magnitude := by
  set m := fp4Halves[(code &&& 0x7).toNat]! with hm
  have hm12 : m ≤ 12 := halves_le code
  cases encoding with
  | f32 =>
    obtain ⟨b₀, b₁, b₂, b₃, hregion, hfinite, hsign, rfl⟩ := h
    have hword := word_of_region hregion hsign
    rw [decodeCode_convert code hfinite hsign, ← hm]
    generalize F32.ofLeBytes b₀ b₁ b₂ b₃ = x at hfinite hsign hword
    have hmagnitude : x.magnitude < 255 * 2 ^ 23 := of_decide_eq_true hfinite
    have hbiased : x.magnitude >>> 23 &&& 0xFF = x.magnitude / 2 ^ 23 := by
      rw [and_ff, Nat.shiftRight_eq_div_pow]
      exact Nat.mod_eq_of_lt (by omega)
    have hmantissa : x.magnitude &&& 0x7FFFFF = x.magnitude % 2 ^ 23 :=
      Nat.and_two_pow_sub_one_eq_mod _ 23
    have hlt : x.magnitude % 2 ^ 23 < 2 ^ 23 := Nat.mod_lt _ (by decide)
    simp only [fp4Product, Fp4ScaleEncodingV1.deviceWord, if_true, Outcome.index_eq_ok_iff.2 hword,
      Except.ok_bind, hbiased, hmantissa]
    rcases Nat.eq_zero_or_pos (x.magnitude / 2 ^ 23) with hzero | hpos
    · -- A subnormal scale.
      have hsub : x.magnitude < 2 ^ 23 := by omega
      have hunits : x.units = x.magnitude % 2 ^ 23 := by
        rw [Nat.mod_eq_of_lt hsub]
        exact if_pos hsub
      have hproduct : m * (x.magnitude % 2 ^ 23) < 2 ^ 28 :=
        Nat.lt_of_le_of_lt (Nat.mul_le_mul hm12 hlt.le) (by decide)
      refine ⟨(m * (x.magnitude % 2 ^ 23), -150), ?_, ?_⟩
      · rw [if_pos hzero, kernelU32_of_lt (Nat.lt_trans hproduct (by decide))]
        rfl
      · have hround := roundBits_eq_round hproduct 0
        rw [Nat.pow_zero, Nat.mul_one] at hround
        rw [hunits]
        exact hround
    · have hor : x.magnitude % 2 ^ 23 ||| 0x800000 = 2 ^ 23 + x.magnitude % 2 ^ 23 := by
        have hadd := Nat.two_pow_add_eq_or_of_lt hlt 1
        rw [Nat.mul_one] at hadd
        rw [hadd, Nat.or_comm]
      have hnormal : ¬ x.magnitude < 2 ^ 23 := by omega
      have hunits : x.units = (2 ^ 23 + x.magnitude % 2 ^ 23) * 2 ^ (x.magnitude / 2 ^ 23 - 1) :=
        if_neg hnormal
      have hproduct : m * (2 ^ 23 + x.magnitude % 2 ^ 23) < 2 ^ 28 :=
        Nat.lt_of_le_of_lt (Nat.mul_le_mul hm12 (by omega : _ ≤ 2 ^ 24)) (by decide)
      refine ⟨(m * (2 ^ 23 + x.magnitude % 2 ^ 23), (x.magnitude / 2 ^ 23 : ℕ) - 151), ?_, ?_⟩
      · rw [if_neg hpos.ne', hor, kernelU32_of_lt (Nat.lt_trans hproduct (by decide))]
        rfl
      · have hround := roundBits_eq_round hproduct (x.magnitude / 2 ^ 23 - 1)
        have hexponent : (((x.magnitude / 2 ^ 23 - 1 : ℕ) : ℤ) - 150) =
            (x.magnitude / 2 ^ 23 : ℕ) - 151 := by omega
        rw [hexponent, Nat.mul_assoc, ← hunits] at hround
        exact hround
  | e8m0 =>
    obtain ⟨exponent, hregion, hne, rfl⟩ := h
    have hexponent : exponent.toNat < 255 := by
      have hlt := exponent.toNat_lt
      have hne' : exponent.toNat ≠ 255 := fun heq => hne (UInt8.toNat_inj.1 heq)
      omega
    have hget : scales[group]? = some exponent := by
      have hfirst : (region scales (group * 1) 1)[0]? = some exponent := by rw [hregion]; rfl
      rwa [region, List.getElem?_take_of_lt Nat.one_pos, List.getElem?_drop, Nat.mul_one] at hfirst
    have hbyte : (kernelByte (paddedWords scales) group : Outcome ε ℕ) = .ok exponent.toNat := by
      rw [kernelByte_paddedWords (List.getElem?_eq_some_iff.1 hget).1,
        List.getD_eq_getElem?_getD, hget]
      rfl
    refine ⟨(m, (exponent.toNat : ℤ) - 128), ?_, ?_⟩
    · simp only [fp4Product, Fp4ScaleEncodingV1.deviceWord, Nat.one_ne_zero, if_false, hbyte,
        Except.ok_bind]
      rfl
    · rw [decodeCode_pow2 code hexponent, ← hm]
      have hround := roundBits_eq_round (Nat.lt_of_le_of_lt hm12 (by decide)) (exponent.toNat + 22)
      have hexponent' : (((exponent.toNat + 22 : ℕ) : ℤ) - 150) = (exponent.toNat : ℤ) - 128 := by
        omega
      rw [hexponent'] at hround
      exact hround

/-! ### What the host accepts -/

private theorem hostScale_eq_ok_iff {layout : Fp4E2M1KvLayoutV1} (codes : List UInt8)
    {scales : List UInt8} {group : ℕ} {s : F64} :
    hostScale layout.scaleEncoding scales group = .ok s ↔
      (⟨layout, codes, scales⟩ : CpuFp4E2M1KvBlockV1).scale group = .ok s := by
  unfold hostScale CpuFp4E2M1KvBlockV1.scale
  dsimp only
  cases layout.scaleEncoding with
  | f32 =>
    dsimp only
    rcases scales.drop (group * 4) with _ | ⟨b₀, _ | ⟨b₁, _ | ⟨b₂, _ | ⟨b₃, rest⟩⟩⟩⟩
    · exact ⟨nofun, nofun⟩
    · exact ⟨nofun, nofun⟩
    · exact ⟨nofun, nofun⟩
    · exact ⟨nofun, nofun⟩
    · dsimp only
      split_ifs
      · exact ⟨nofun, nofun⟩
      · exact Except.pure_eq_ok_iff.trans Except.pure_eq_ok_iff.symm
  | e8m0 =>
    dsimp only
    rcases scales[group]? with _ | exponent
    · exact ⟨nofun, nofun⟩
    · dsimp only
      split_ifs
      · exact ⟨nofun, nofun⟩
      · exact Except.pure_eq_ok_iff.trans Except.pure_eq_ok_iff.symm

private theorem isFinite_decodeCode (code : UInt8) (scale : F64) :
    (decodeCode code scale).isFinite = Binary.isFinite
      ((((fp4E2m1Magnitudes ⟨(code &&& 0x7).toNat, and_seven_lt code⟩).convert binary64).mul
        scale).convert binary32) := by
  rw [decodeCode]
  split_ifs
  · rfl
  · rfl

/-- The host and the reassembly of the CPU accept the same codes of a stored byte. -/
private theorem validateCode_eq_ok_iff {layout : Fp4E2M1KvLayoutV1} {codes scales : List UInt8}
    {group : ℕ} {code : UInt8} :
    (hostScale layout.scaleEncoding scales group >>= fun scale => Outcome.require
      ((Binary.convert binary32 (((fp4E2m1Magnitudes ⟨(code &&& 0x7).toNat,
        and_seven_lt code⟩).convert binary64).mul scale)).isFinite = true)
          (.decodeOverflow group)) = .ok ⟨⟩ ↔
      ((⟨layout, codes, scales⟩ : CpuFp4E2M1KvBlockV1).scale group >>= fun scale =>
        Outcome.require ((decodeCode code scale).isFinite = true) (.decodeOverflow group)) =
          .ok ⟨⟩ := by
  simp only [Except.bind_eq_ok_iff, Outcome.require_eq_ok_iff, isFinite_decodeCode,
    hostScale_eq_ok_iff codes]

/-- The host and the reassembly of the CPU accept the same stored codes. -/
private theorem validatePosition_eq_ok_iff {layout : Fp4E2M1KvLayoutV1}
    {codes scales rowCodes : List UInt8} {row position : ℕ} :
    validatePosition layout scales rowCodes row position = .ok ⟨⟩ ↔
      (⟨layout, codes, scales⟩ : CpuFp4E2M1KvBlockV1).checkPosition rowCodes row position =
        .ok ⟨⟩ := by
  rw [validatePosition, CpuFp4E2M1KvBlockV1.checkPosition, nibble, bind_assoc,
    Except.bind_eq_ok_iff, Except.bind_eq_ok_iff]
  refine exists_congr fun byte => and_congr
    (Outcome.index_eq_ok_iff.trans Outcome.index_eq_ok_iff.symm) ?_
  rw [pure_bind]
  split_ifs
  · exact Outcome.require_eq_ok_iff.trans Outcome.require_eq_ok_iff.symm
  · exact validateCode_eq_ok_iff
  · exact Outcome.require_eq_ok_iff.trans Outcome.require_eq_ok_iff.symm
  · exact validateCode_eq_ok_iff

private theorem wgpuHostLen_of_lt {value : ℕ} (h : value < wordLimit) :
    wgpuHostLen value = .ok value := by
  rw [wgpuHostLen, if_pos h]
  rfl

/-- The host and the reassembly of the CPU accept the same parts. -/
theorem validateParts_eq_ok_iff {layout : Fp4E2M1KvLayoutV1} {codes scales : List UInt8}
    {storage : Fp4KvStorageV1} : validateParts layout codes scales = .ok storage ↔
      CpuFp4E2M1KvBlockV1.fromParts layout codes scales = .ok ⟨layout, codes, scales⟩ ∧
        layout.exactStorage = storage := by
  obtain ⟨-, hcodes, hscales⟩ := layout.sizes_lt
  have hstorage {ε : Type} (f : Fp4LayoutError → ε) :
      Outcome.wrap f layout.storage = .ok layout.exactStorage := by
    rw [layout.storage_eq]
    rfl
  have hcodes' : wgpuHostLen layout.exactStorage.codeBytes = .ok layout.exactStorage.codeBytes :=
    wgpuHostLen_of_lt hcodes
  have hscales' :
      wgpuHostLen layout.exactStorage.scaleBytes = .ok layout.exactStorage.scaleBytes :=
    wgpuHostLen_of_lt hscales
  have hcodes'' : hostLen layout.exactStorage.codeBytes = .ok layout.exactStorage.codeBytes :=
    CpuFp4E2M1KvBlockV1.hostLen_of_lt hcodes
  have hscales'' : hostLen layout.exactStorage.scaleBytes = .ok layout.exactStorage.scaleBytes :=
    CpuFp4E2M1KvBlockV1.hostLen_of_lt hscales
  simp only [validateParts, CpuFp4E2M1KvBlockV1.fromParts, hstorage, Except.ok_bind, hcodes',
    hscales', hcodes'', hscales'', wgpuHostLen_of_lt layout.paddedRowWidth_lt,
    wgpuHostLen_of_lt layout.codeBytesPerRow_lt, wgpuHostLen_of_lt layout.rows_lt,
    CpuFp4E2M1KvBlockV1.hostLen_of_lt layout.paddedRowWidth_lt,
    CpuFp4E2M1KvBlockV1.hostLen_of_lt layout.codeBytesPerRow_lt,
    CpuFp4E2M1KvBlockV1.hostLen_of_lt layout.rows_lt, Except.bind_eq_ok_iff,
    Outcome.require_eq_ok_iff, Except.pure_eq_ok_iff, and_true, exists_const, exists_and_right,
    and_assoc]
  refine and_congr_right fun _ => and_congr_right fun _ => and_congr_left fun _ =>
    exists_congr fun _ => ?_
  refine Outcome.forM_eq_ok_iff.trans (Iff.trans (forall₂_congr fun row _ => ?_)
    Outcome.forM_eq_ok_iff.symm)
  rw [Except.bind_eq_ok_iff, Except.bind_eq_ok_iff]
  refine exists_congr fun rowCodes => and_congr
    (Outcome.slice_eq_ok_iff.trans Outcome.slice_eq_ok_iff.symm) ?_
  rw [Outcome.forM_eq_ok_iff, Outcome.forM_eq_ok_iff]
  exact forall₂_congr fun _ _ => validatePosition_eq_ok_iff

/-! ### Codes -/

/-- The sign of a decoded code is that of the code. -/
private theorem negative_decodeCode {encoding : Fp4ScaleEncodingV1} {scales : List UInt8}
    {group : ℕ} {scale : F64} (h : encoding.HasScale scales group scale) (code : UInt8) :
    (decodeCode code scale).negative = decide (code &&& 0x8 ≠ 0) := by
  cases encoding with
  | f32 =>
    obtain ⟨b₀, b₁, b₂, b₃, -, hfinite, hsign, rfl⟩ := h
    rw [decodeCode_convert code hfinite hsign]
    rfl
  | e8m0 =>
    obtain ⟨exponent, -, hne, rfl⟩ := h
    have hexponent : exponent.toNat < 255 := by
      have hlt := exponent.toNat_lt
      have hne' : exponent.toNat ≠ 255 := fun heq => hne (UInt8.toNat_inj.1 heq)
      omega
    rw [decodeCode_pow2 code hexponent]
    rfl

/-- The word of a code: its sign beside the magnitude of its value. -/
private theorem or_sign {encoding : Fp4ScaleEncodingV1} {scales : List UInt8} {group : ℕ}
    {scale : F64} (h : encoding.HasScale scales group scale) (code : UInt8) :
    (if code.toNat &&& 8 ≠ 0 then (decodeCode code scale).magnitude ||| 0x80000000
      else (decodeCode code scale).magnitude) = (decodeCode code scale).toBits := by
  have hsign : code.toNat &&& 8 ≠ 0 ↔ code &&& 0x8 ≠ 0 := by
    rw [Ne, Ne, ← UInt8.toNat_inj, UInt8.toNat_and]
    rfl
  have hlt : (decodeCode code scale).magnitude < 2 ^ 31 := (decodeCode code scale).magnitude_lt
  rw [Binary.toBits, negative_decodeCode h]
  by_cases hneg : code &&& 0x8 ≠ 0
  · have hor := Nat.two_pow_add_eq_or_of_lt hlt 1
    rw [Nat.mul_one] at hor
    rw [if_pos (hsign.2 hneg), decide_eq_true hneg, Nat.or_comm]
    exact hor.symm.trans (by rw [Bool.toNat_true, Nat.one_mul]; rfl)
  · rw [if_neg (mt hsign.1 hneg), decide_eq_false hneg, Bool.toNat_false, Nat.zero_mul,
      Nat.zero_add]

/-- The code that the kernel takes from a byte. -/
private theorem kernelCode (byte : UInt8) (position : ℕ) :
    (if position &&& 1 = 1 then byte.toNat >>> 4 else byte.toNat &&& 0xF) =
      (half byte (position % 2 != 0)).toNat := by
  rw [show position &&& 1 = position % 2 from Nat.and_two_pow_sub_one_eq_mod position 1, half]
  rcases Nat.mod_two_eq_zero_or_one position with heven | hodd
  · rw [heven]
    exact (UInt8.toNat_and byte 0x0F).symm
  · rw [hodd]
    exact (UInt8.toNat_shiftRight byte 4).symm

private theorem index_fp4Halves {ε : Type} {n : ℕ} (h : n < 8) :
    (Outcome.index fp4Halves n : Outcome ε ℕ) = .ok fp4Halves[n]! := by
  refine Outcome.index_eq_ok_iff.2 ?_
  revert h
  revert n
  decide

/-! ### The kernel -/

variable {layout : Fp4E2M1KvLayoutV1} {codes scales : List UInt8}

/-- Invocations past the values write nothing. -/
private theorem fp4DecodeWord_of_le {ε : Type}
    (hvalues : layout.rows * layout.rowWidth < wordLimit32) {words words' : List ℕ} {i : ℕ}
    (h : layout.rows * layout.rowWidth ≤ i) :
    (fp4DecodeWord (layout.kernelParams (layout.rows * layout.rowWidth)) words words' i :
      Outcome ε (Option ℕ)) = .ok none := by
  have htotal : layout.rows * layout.rowWidth % wordLimit32 = layout.rows * layout.rowWidth :=
    Nat.mod_eq_of_lt hvalues
  simp only [fp4DecodeWord, Fp4E2M1KvLayoutV1.kernelParams, htotal]
  exact if_pos h

/-- The word that the kernel writes at a logical value is that of its code under its scale. -/
private theorem fp4DecodeWord_spec {ε : Type}
    (hwell : (⟨layout, codes, scales⟩ : CpuFp4E2M1KvBlockV1).WellFormed)
    (hvalues : layout.rows * layout.rowWidth < wordLimit32)
    (hcodes : layout.rows * layout.codeBytesPerRow < wordLimit32)
    (hscales : layout.rows * layout.groupsPerRow * layout.scaleEncoding.bytes < wordLimit32)
    {i : ℕ} (h : i < layout.rows * layout.rowWidth) {scale : F64}
    (hscale : layout.scaleEncoding.HasScale scales (i / layout.rowWidth * layout.groupsPerRow +
      i % layout.rowWidth / layout.groupSize) scale) :
    (fp4DecodeWord (layout.kernelParams (layout.rows * layout.rowWidth)) (paddedWords codes)
        (paddedWords scales) i : Outcome ε (Option ℕ)) =
      .ok (some (decodeCode ((⟨layout, codes, scales⟩ : CpuFp4E2M1KvBlockV1).code
        (i / layout.rowWidth) (i % layout.rowWidth)) scale).toBits) := by
  have hrow : i / layout.rowWidth < layout.rows := by
    rwa [Nat.div_lt_iff_lt_mul layout.rowWidth_pos]
  have hposition : i % layout.rowWidth < layout.rowWidth := Nat.mod_lt _ layout.rowWidth_pos
  have htotal : ¬ layout.rows * layout.rowWidth % wordLimit32 ≤ i := by
    rw [Nat.mod_eq_of_lt hvalues]
    exact Nat.not_le.2 h
  have hbytesPerRow : layout.codeBytesPerRow % wordLimit32 = layout.codeBytesPerRow :=
    Nat.mod_eq_of_lt (Nat.lt_of_le_of_lt (Nat.le_mul_of_pos_left _ layout.rows_pos) hcodes)
  simp only [fp4DecodeWord, Fp4E2M1KvLayoutV1.kernelParams, Outcome.index, List.getElem?_cons_zero,
    List.getElem?_cons_succ, Except.ok_bind, ge_iff_le, if_neg htotal, hbytesPerRow]
  generalize i / layout.rowWidth = row at hrow hscale ⊢
  generalize i % layout.rowWidth = position at hposition hscale ⊢
  -- The indices of the kernel stay below the sizes of the uploads.
  have hlength : codes.length = layout.rows * layout.codeBytesPerRow :=
    hwell.length_codes _ layout.storage_eq
  have hpadded := layout.codeBytesPerRow_mul_two
  have hwidth := layout.rowWidth_le
  have hcode : row * layout.codeBytesPerRow + position / 2 < codes.length :=
    calc row * layout.codeBytesPerRow + position / 2
        < row * layout.codeBytesPerRow + layout.codeBytesPerRow := by omega
      _ = (row + 1) * layout.codeBytesPerRow := (Nat.succ_mul _ _).symm
      _ ≤ codes.length := hlength ▸ Nat.mul_le_mul_right _ hrow
  have hgroup : row * layout.groupsPerRow + position / layout.groupSize < wordLimit32 :=
    calc row * layout.groupsPerRow + position / layout.groupSize
        < row * layout.groupsPerRow + layout.groupsPerRow :=
          Nat.add_lt_add_left (layout.div_lt_groupsPerRow hposition) _
      _ = (row + 1) * layout.groupsPerRow := (Nat.succ_mul _ _).symm
      _ ≤ layout.rows * layout.groupsPerRow := Nat.mul_le_mul_right _ hrow
      _ ≤ layout.rows * layout.groupsPerRow * layout.scaleEncoding.bytes :=
          Nat.le_mul_of_pos_right _ (by cases layout.scaleEncoding <;> decide)
      _ < wordLimit32 := hscales
  have hindex : (row * layout.paddedRowWidth + position) / 2 =
      row * layout.codeBytesPerRow + position / 2 := by
    have htwice := CpuFp4E2M1KvBlockV1.two_mul_codeBytes layout row
    omega
  have hparity : (row * layout.paddedRowWidth + position) % 2 = position % 2 := by
    have htwice := CpuFp4E2M1KvBlockV1.two_mul_codeBytes layout row
    omega
  have hstored : (⟨layout, codes, scales⟩ : CpuFp4E2M1KvBlockV1).code row position =
      half (codes.getD (row * layout.codeBytesPerRow + position / 2) 0) (position % 2 != 0) := by
    rw [CpuFp4E2M1KvBlockV1.code, nibbleAt, hindex, hparity]
  generalize (⟨layout, codes, scales⟩ : CpuFp4E2M1KvBlockV1).code row position = code at hstored ⊢
  have hhalves := index_fp4Halves (ε := ε) (and_seven_lt code)
  obtain ⟨product, hproduct, hround⟩ := fp4Product_spec (ε := ε) hscale code
  rw [UInt8.toNat_and] at hhalves hproduct
  have hcode32 : row * layout.codeBytesPerRow + position / 2 < wordLimit32 := by
    rw [hlength] at hcode
    exact Nat.lt_trans hcode hcodes
  rw [kernelU32_of_lt (Nat.lt_of_le_of_lt (Nat.le_add_right _ _) hcode32), Except.ok_bind,
    kernelU32_of_lt hcode32, Except.ok_bind, kernelByte_paddedWords hcode, Except.ok_bind,
    kernelU32_of_lt (Nat.lt_of_le_of_lt (Nat.le_add_right _ _) hgroup), Except.ok_bind,
    kernelU32_of_lt hgroup, Except.ok_bind, kernelCode, ← hstored]
  refine (congrArg (· >>= _) hhalves).trans ?_
  rw [Except.ok_bind, hproduct, Except.ok_bind, hround]
  exact congrArg _ (congrArg some (or_sign hscale code))

/-! ### Blocks -/

/-- The parameters have 32 bits each. -/
private theorem kernelParams_mod (layout : Fp4E2M1KvLayoutV1) (values : ℕ) :
    (layout.kernelParams values).map (· % wordLimit32) = layout.kernelParams values := by
  have hsize : layout.groupSize < wordLimit32 :=
    Nat.lt_of_le_of_lt layout.groupSize_le (by decide)
  have hword : layout.scaleEncoding.deviceWord < wordLimit32 := by
    cases layout.scaleEncoding <;> decide
  simp only [Fp4E2M1KvLayoutV1.kernelParams, List.map_cons, List.map_nil, Nat.mod_mod,
    Nat.mod_eq_of_lt layout.rowWidth_lt, Nat.mod_eq_of_lt hsize, Nat.mod_eq_of_lt hword,
    Fp4Shape.groupsPerRow, wordLimit32]

/-- The parameters reach the kernel as they are. -/
private theorem paddedWords_kernelParams (layout : Fp4E2M1KvLayoutV1) (values : ℕ) :
    paddedWords ((layout.kernelParams values).flatMap (leBytes 4)) =
      layout.kernelParams values := by
  have hlength : ((layout.kernelParams values).flatMap (leBytes 4)).length = 24 :=
    length_flatMap_leBytes _
  rw [paddedWords, padToWords, hlength, show max ((24 + 3) / 4) 1 * 4 - 24 = 0 by rfl,
    List.replicate_zero, List.append_nil, wordsOfLeBytes_flatMap, kernelParams_mod]

namespace WgpuFp4E2M1KvBlockV1

/-- A buffer of a device that holds padded bytes. -/
structure Uploaded (device : WgpuDevice) (bytes : List UInt8) (buffer : WgpuBuffer) : Prop where
  owner : buffer.deviceToken = device.token
  len : buffer.len = (padToWords bytes).length
  buffer : buffer.buffer = padToWords bytes

/-- A block of parts in buffers of a device. -/
structure HoldsParts (device : WgpuDevice) (layout : Fp4E2M1KvLayoutV1) (codes scales : List UInt8)
    (block : WgpuFp4E2M1KvBlockV1) : Prop where
  values : block.values = layout.rows * layout.rowWidth
  codes : Uploaded device codes block.codes
  scales : Uploaded device scales block.scales
  params : Uploaded device ((layout.kernelParams block.values).flatMap (leBytes 4)) block.params

/-- The device admits the buffers of parts. -/
structure AdmitsParts (device : WgpuDevice) (codes scales : List UInt8) : Prop where
  codes : device.Admits (padToWords codes).length
  scales : device.Admits (padToWords scales).length
  params : device.Admits 24

/-- The descriptor of an upload. -/
private def uploadDesc (bytes : List UInt8) : BufferDesc :=
  ⟨(padToWords bytes).length, blockUsages, .deviceLocal⟩

private theorem length_padToWords_pos (bytes : List UInt8) : 0 < (padToWords bytes).length := by
  rw [length_padToWords]
  omega

private theorem new_uploadDesc (bytes : List UInt8) :
    BufferDesc.new (padToWords bytes).length blockUsages .deviceLocal = .ok (uploadDesc bytes) :=
  BufferDesc.new_of_ne _ (length_padToWords_pos bytes).ne' (by decide)

variable {granted : Prop} {device : WgpuDevice} {bytes : List UInt8}

private theorem upload_delivers (h : device.Admits (padToWords bytes).length) :
    Delivers granted (RefusedAs WgpuFp4Error.portable)
      ((device.upload (uploadDesc bytes) (padToWords bytes)).wrap .portable)
      (Uploaded device bytes) := by
  refine (wrap_delivers (WgpuDevice.upload_delivers rfl
    (List.ne_nil_of_length_pos (length_padToWords_pos bytes))
    (show blockUsages.contains .copyDst = true by decide)
    (show MemoryClass.deviceLocal ≠ .host by decide) h)).mono fun buffer hbuffer => ?_
  obtain ⟨hheader, hlogical⟩ := hbuffer
  have hlen : buffer.len = (padToWords bytes).length := by rw [hheader]; rfl
  refine ⟨by rw [hheader], hlen, ?_⟩
  rw [← WgpuBuffer.logical_bytes_eq (by rw [hlen, length_padToWords, Nat.mul_mod_left]), hlogical]

/-- Bytes are padded and uploaded, or something is refused. -/
theorem uploadWords_delivers (h : device.Admits (padToWords bytes).length) :
    Delivers granted (fun _ => True) (uploadWords device bytes) (Uploaded device bytes) := by
  rintro ⟨host, reports⟩ hs
  rw [uploadWords, Fallible.run_bind_ok (m := Fallible.zoom _ _ _) rfl]
  cases hanswer : host.answer 0 (bytes.length + 4) with
  | ok capacity =>
    dsimp only
    rw [new_uploadDesc, Outcome.wrap_ok, Fallible.ofExcept_ok_bind]
    exact (upload_delivers h ⟨host.rest, reports⟩
      fun hg => ⟨(hs hg).host.rest, (hs hg).reports⟩).imp (fun _ _ hq => hq)
        fun _ _ he => ⟨trivial, he.2⟩
  | error error =>
    refine ⟨trivial, fun hg => ?_⟩
    obtain ⟨capacity, hcapacity⟩ := (hs hg).host 0 (bytes.length + 4)
    cases hanswer.symm.trans hcapacity

/-- What an upload returns holds the padded bytes. -/
private theorem uploaded_of_run {answers answers' : WgpuAnswers} {buffer : WgpuBuffer}
    (h : (uploadWords device bytes).run answers = (.ok buffer, answers')) :
    Uploaded device bytes buffer := by
  by_cases hadmits : device.Admits (padToWords bytes).length
  · have hupload := @uploadWords_delivers False device bytes hadmits
    exact (hupload.ok False.elim h).1
  · obtain ⟨text, hadmit⟩ := @WgpuDevice.admitBuffer_of_not_admits device (uploadDesc bytes)
      (length_padToWords_pos bytes).ne' (show blockUsages.isEmpty = false by decide)
      (show MemoryClass.deviceLocal ≠ .host by decide) hadmits
    obtain ⟨host, reports⟩ := answers
    rw [uploadWords, Fallible.run_bind_ok (m := Fallible.zoom _ _ _) rfl] at h
    cases hanswer : host.answer 0 (bytes.length + 4) with
    | ok capacity =>
      simp only [hanswer] at h
      rw [new_uploadDesc, Outcome.wrap_ok, Fallible.ofExcept_ok_bind, WgpuDevice.upload,
        WgpuDevice.createBuffer, hadmit] at h
      cases congrArg Prod.fst h
    | error error =>
      simp only [hanswer] at h
      cases congrArg Prod.fst h

variable {layout : Fp4E2M1KvLayoutV1} {codes scales : List UInt8} {block : WgpuFp4E2M1KvBlockV1}

/-- The host takes the parts that the CPU accepts and whose sizes have 32 bits. -/
def TakesParts (layout : Fp4E2M1KvLayoutV1) (codes scales : List UInt8) : Prop :=
  (∃ block, CpuFp4E2M1KvBlockV1.fromParts layout codes scales = .ok block) ∧
    layout.exactStorage.logicalValues < wordLimit32 ∧
    layout.exactStorage.codeBytes < wordLimit32 ∧
    layout.exactStorage.scaleBytes < wordLimit32

private theorem wgpuHostLen_values (layout : Fp4E2M1KvLayoutV1) :
    wgpuHostLen layout.exactStorage.logicalValues = .ok layout.exactStorage.logicalValues :=
  wgpuHostLen_of_lt layout.sizes_lt.1

/-- Taken parts that the device admits are uploaded, or something is refused. -/
theorem fromParts_delivers (htakes : TakesParts layout codes scales)
    (h : AdmitsParts device codes scales) :
    Delivers granted (fun _ => True) (fromParts device layout codes scales)
      (HoldsParts device layout codes scales) := by
  obtain ⟨⟨cpuBlock, hcpu⟩, hsizes⟩ := htakes
  obtain ⟨rfl, -⟩ := CpuFp4E2M1KvBlockV1.fromParts_eq_ok_iff.1 hcpu
  have hparams (values : ℕ) :
      device.Admits (padToWords ((layout.kernelParams values).flatMap (leBytes 4))).length := by
    rw [length_padToWords, length_flatMap_leBytes,
      show (layout.kernelParams values).length = 6 from rfl]
    exact h.params
  rw [fromParts, validateParts_eq_ok_iff.2 ⟨hcpu, rfl⟩, Fallible.ofExcept_ok_bind,
    wgpuHostLen_values, Fallible.ofExcept_ok_bind, Outcome.require_of _ hsizes,
    Fallible.ofExcept_ok_bind]
  exact (uploadWords_delivers h.codes).bind fun _ hcodes =>
    (uploadWords_delivers h.scales).bind fun _ hscales =>
      (uploadWords_delivers (hparams _)).bind fun _ hparams =>
        Delivers.pure ⟨rfl, hcodes, hscales, hparams⟩

/-- A block is made of taken parts only, which its buffers hold. -/
theorem fromParts_holds {answers answers' : WgpuAnswers}
    (h : (fromParts device layout codes scales).run answers = (.ok block, answers')) :
    TakesParts layout codes scales ∧ HoldsParts device layout codes scales block := by
  obtain ⟨storage, _, hparts, h⟩ := Fallible.of_run_bind_ok h
  obtain ⟨hcpu, rfl⟩ := validateParts_eq_ok_iff.1 (congrArg Prod.fst hparts)
  rw [wgpuHostLen_values, Fallible.ofExcept_ok_bind] at h
  obtain ⟨_, _, hsizes, h⟩ := Fallible.of_run_bind_ok h
  obtain ⟨_, _, hcodes, h⟩ := Fallible.of_run_bind_ok h
  obtain ⟨_, _, hscales, h⟩ := Fallible.of_run_bind_ok h
  obtain ⟨_, _, hparams, h⟩ := Fallible.of_run_bind_ok h
  obtain rfl := Except.ok.inj (congrArg Prod.fst h)
  exact ⟨⟨⟨_, hcpu⟩, Outcome.require_eq_ok_iff.1 (congrArg Prod.fst hsizes)⟩,
    rfl, uploaded_of_run hcodes, uploaded_of_run hscales, uploaded_of_run hparams⟩

/-! ### Decoding -/

/-- The artifact of the decode binds the parameters, the codes, the scales and the output. -/
def bindingBytes (block : WgpuFp4E2M1KvBlockV1) : List ℕ :=
  [block.params.len, block.codes.len, block.scales.len, block.values * 4]

/-- The dispatch writes the words of the values of the CPU. -/
private theorem dispatch_holds
    (hwell : (⟨layout, codes, scales⟩ : CpuFp4E2M1KvBlockV1).WellFormed)
    (hvalues : layout.rows * layout.rowWidth < wordLimit32)
    (hcodes : layout.rows * layout.codeBytesPerRow < wordLimit32)
    (hscales : layout.rows * layout.groupsPerRow * layout.scaleEncoding.bytes < wordLimit32)
    {values : List F32} (hlength : values.length = layout.rows * layout.rowWidth)
    (hdecoded : (⟨layout, codes, scales⟩ : CpuFp4E2M1KvBlockV1).Decoded values)
    (hblock : HoldsParts device layout codes scales block) (scheduler : Scheduler) :
    (dispatch (fp4DecodeMain (wordsOfLeBytes block.params.buffer)
        (wordsOfLeBytes block.codes.buffer) (wordsOfLeBytes block.scales.buffer))
      (scheduler.order 0 ((block.values + (64 - 1)) / 64 * 64)) (List.replicate block.values 0) :
        Outcome WgpuFp4Error (List ℕ)) = .ok (values.map Binary.toBits) := by
  have hcount : block.values = values.length := hblock.values.trans hlength.symm
  have hparamWords : wordsOfLeBytes block.params.buffer =
      layout.kernelParams (layout.rows * layout.rowWidth) := by
    rw [hblock.params.buffer, ← paddedWords, paddedWords_kernelParams, hblock.values]
  have hkernel : ∀ output : List ℕ, output.length = values.length → ∀ i,
      (fp4DecodeMain (layout.kernelParams (layout.rows * layout.rowWidth)) (paddedWords codes)
        (paddedWords scales) output i : Outcome WgpuFp4Error (List ℕ)) =
      .ok (if i < values.length then output.set i ((values.map Binary.toBits).getD i 0)
        else output) := by
    intro output houtput i
    rw [fp4DecodeMain]
    rcases Nat.lt_or_ge i values.length with hi | hi
    · obtain ⟨scale, hscale, hget⟩ := hdecoded i hi
      rw [fp4DecodeWord_spec hwell hvalues hcodes hscales (hlength ▸ hi) hscale, Except.ok_bind,
        if_pos hi, List.getD_eq_getElem?_getD, List.getElem?_map, hget]
      exact Outcome.modifyAt_eq_ok_iff.2
        ⟨houtput ▸ hi, (List.modify_eq_set (fun _ => _) i output).symm⟩
    · rw [fp4DecodeWord_of_le hvalues (hlength ▸ hi), if_neg (Nat.not_lt.2 hi)]
      rfl
  have hrun := dispatch_writes (n := values.length) _ hkernel
    (show values.length ≤ (values.length + (64 - 1)) / 64 * 64 by omega)
    (scheduler.perm 0 _) (List.length_replicate (n := values.length) (a := 0))
  have htabulate := tabulate_getD (values.map Binary.toBits) 0
  rw [List.length_map] at htabulate
  rw [htabulate] at hrun
  rw [hcount, hparamWords, hblock.codes.buffer, hblock.scales.buffer]
  exact hrun

private theorem outputBytes_eq (h : block.values < wordLimit32) :
    checkedMul block.values 4 = some (block.values * 4) :=
  checkedMul_of_lt (by simp only [wordLimit32] at h; simp only [wordLimit]; omega)

/-- The descriptor of an output. -/
private def outputDesc (block : WgpuFp4E2M1KvBlockV1) : BufferDesc :=
  ⟨block.values * 4, blockUsages, .deviceLocal⟩

private theorem new_outputDesc (h : 0 < block.values) :
    BufferDesc.new (block.values * 4) blockUsages .deviceLocal = .ok (outputDesc block) :=
  BufferDesc.new_of_ne _ (by omega) (by decide)

variable {words : List ℕ} {scheduler : Scheduler}

/-- A decode of a block whose dispatch writes some words returns them, on a device of the block that
admits the output and runs the kernel, unless something is refused. -/
private theorem decode_delivers (hpos : 0 < block.values) (hlt : block.values < wordLimit32)
    (hdispatch : (dispatch (fp4DecodeMain (wordsOfLeBytes block.params.buffer)
        (wordsOfLeBytes block.codes.buffer) (wordsOfLeBytes block.scales.buffer))
      (scheduler.order 0 ((block.values + (64 - 1)) / 64 * 64)) (List.replicate block.values 0) :
        Outcome WgpuFp4Error (List ℕ)) = .ok words)
    (howner : block.codes.deviceToken = device.token) (hadmits : device.Admits (block.values * 4))
    (hruns : device.Runs 64 block.bindingBytes block.values) :
    Delivers granted (RefusedAs .portable) (block.decode scheduler device) (· = words) := by
  rw [decode, WgpuQueue.checkOwner, Outcome.require_of _ howner, Outcome.wrap_ok,
    Fallible.ofExcept_ok_bind, outputBytes_eq hlt, Outcome.okOr, Fallible.ofExcept_ok_bind,
    new_outputDesc hpos, Outcome.wrap_ok, Fallible.ofExcept_ok_bind]
  refine (wrap_delivers (@WgpuDevice.createBuffer_delivers device (outputDesc block) _
    (show block.values * 4 ≠ 0 by omega) (show blockUsages.isEmpty = false by decide)
    (show MemoryClass.deviceLocal ≠ .host by decide) hadmits)).bind fun _ _ => ?_
  have hartifact := hruns.artifact
  rw [bindingBytes] at hartifact
  rw [hartifact, Outcome.wrap_ok, Fallible.ofExcept_ok_bind, hruns.groups, Outcome.wrap_ok,
    Fallible.ofExcept_ok_bind, hdispatch, Fallible.ofExcept_ok_bind]
  exact (wrap_delivers (popScopes_delivers _)).bind fun _ _ => Delivers.pure rfl

/-- A decode that returns words returns those that its dispatch writes. -/
private theorem eq_of_decode
    (hdispatch : (dispatch (fp4DecodeMain (wordsOfLeBytes block.params.buffer)
        (wordsOfLeBytes block.codes.buffer) (wordsOfLeBytes block.scales.buffer))
      (scheduler.order 0 ((block.values + (64 - 1)) / 64 * 64)) (List.replicate block.values 0) :
        Outcome WgpuFp4Error (List ℕ)) = .ok words)
    {answers answers' : WgpuAnswers} {words' : List ℕ}
    (h : (block.decode scheduler device).run answers = (.ok words', answers')) :
    words' = words := by
  obtain ⟨_, _, -, h⟩ := Fallible.of_run_bind_ok h
  obtain ⟨_, _, -, h⟩ := Fallible.of_run_bind_ok h
  obtain ⟨_, _, -, h⟩ := Fallible.of_run_bind_ok h
  obtain ⟨_, _, -, h⟩ := Fallible.of_run_bind_ok h
  obtain ⟨_, _, -, h⟩ := Fallible.of_run_bind_ok h
  rcases device.groups_cases block.values 64 with hgroups | ⟨e, he⟩
  · rw [hgroups, Outcome.wrap_ok, Fallible.ofExcept_ok_bind, hdispatch,
      Fallible.ofExcept_ok_bind] at h
    obtain ⟨_, _, -, h⟩ := Fallible.of_run_bind_ok h
    exact (Except.ok.inj (congrArg Prod.fst h)).symm
  · rw [he] at h
    cases congrArg Prod.fst h

/-- The device decodes bit for bit as the CPU does.

* The host takes exactly the parts that the reassembly of the CPU accepts and whose value count,
  code bytes and scale bytes have 32 bits. A block is made of taken parts only; and of taken parts
  that the device admits a block is made, where nothing is refused.
* In whatever order the invocations run, each word that a decode returns has the bits of the value
  that the CPU decodes there. A decode returns these words on a device of the block that admits the
  output and runs the kernel, where nothing is refused.
* The value of the CPU is the product of a magnitude and a scale rounded once: of a magnitude in
  halves and of a number in units of the smallest subnormal, or of a power of two.
* The kernel rounds each product of 28 bits to the nearest word, ties to even. -/
theorem wgpuFp4_decode_bitExact (layout : Fp4E2M1KvLayoutV1) (codes scales : List UInt8) :
    (∀ (device : WgpuDevice) (answers : WgpuAnswers) (block : WgpuFp4E2M1KvBlockV1),
      ((fromParts device layout codes scales).run answers).1 = .ok block →
        TakesParts layout codes scales) ∧
    (TakesParts layout codes scales → ∀ device, AdmitsParts device codes scales →
      ∀ answers : WgpuAnswers, answers.Grants →
        ∃ block, ((fromParts device layout codes scales).run answers).1 = .ok block) ∧
    (∀ (device : WgpuDevice) (answers : WgpuAnswers) (block : WgpuFp4E2M1KvBlockV1),
      ((fromParts device layout codes scales).run answers).1 = .ok block →
      ∃ cpuBlock values, CpuFp4E2M1KvBlockV1.fromParts layout codes scales = .ok cpuBlock ∧
        values.length = layout.rows * layout.rowWidth ∧
        (∀ host : Allocator,
          (∃ capacity, host.answer 0 (layout.rows * layout.rowWidth) = .ok capacity) →
            (cpuBlock.decode.run host).1 = .ok values) ∧
        (∀ (scheduler : Scheduler) (device' : WgpuDevice) (answers' : WgpuAnswers) (words : List ℕ),
          ((block.decode scheduler device').run answers').1 = .ok words →
            words = values.map Binary.toBits) ∧
        (device.Admits (block.values * 4) → device.Runs 64 block.bindingBytes block.values →
          ∀ (scheduler : Scheduler) (answers' : WgpuAnswers), answers'.Grants →
            ((block.decode scheduler device).run answers').1 =
              .ok (values.map Binary.toBits))) ∧
    (∀ code : UInt8,
      (∀ scale : F32, scale.isFinite = true → scale.negative = false →
        decodeCode code (scale.convert binary64) = .rounded (decide (code &&& 0x8 ≠ 0))
          (fp4Halves[(code &&& 0x7).toNat]! * scale.units) 2) ∧
      ∀ exponent < 255, decodeCode code (pow2 ((exponent : ℕ) - 127)) =
        .rounded (decide (code &&& 0x8 ≠ 0))
          (fp4Halves[(code &&& 0x7).toNat]! * 2 ^ (exponent + 22)) 2) ∧
    ∀ p < 2 ^ 28, ∀ t : ℕ, roundBits p ((t : ℤ) - 150) = binary32.round (p * 2 ^ t) 2 := by
  refine ⟨fun device answers block h => (fromParts_holds (Prod.ext h rfl)).1,
    fun htakes device hadmits answers hgrants => ?_, fun device answers block h => ?_,
    fun code => ⟨fun scale => decodeCode_convert code, fun exponent => decodeCode_pow2 code⟩,
    fun p hp t => roundBits_eq_round hp t⟩
  · have hdelivers := @fromParts_delivers True device _ _ _ htakes hadmits
    rcases hdelivers.run_cases (fun _ => hgrants) with ⟨block, _, hrun, -⟩ | ⟨_, _, -, -, hrefused⟩
    · exact ⟨block, congrArg Prod.fst hrun⟩
    · exact absurd trivial hrefused
  · obtain ⟨⟨⟨cpuBlock, hcpu⟩, hvalues, hcodes, hscales⟩, hholds⟩ :=
      fromParts_holds (Prod.ext h rfl)
    obtain ⟨rfl, hwell⟩ := CpuFp4E2M1KvBlockV1.fromParts_eq_ok_iff.1 hcpu
    obtain ⟨values, hlength, hdecoded, hrun⟩ := CpuFp4E2M1KvBlockV1.decode_values hwell
    have hdispatch := dispatch_holds hwell hvalues hcodes hscales hlength hdecoded hholds
    refine ⟨_, values, hcpu, hlength, fun host hgranted => ?_,
      fun scheduler _ _ _ hwords => eq_of_decode (hdispatch scheduler) (Prod.ext hwords rfl),
      fun hadmits hruns scheduler answers' hgrants => ?_⟩
    · rcases hrun host with hok | hrefused
      · exact hok.2
      · obtain ⟨capacity, hcapacity⟩ := hgranted
        obtain ⟨error, herror⟩ := hrefused.1
        cases hcapacity.symm.trans herror
    · have hpos : 0 < block.values := by
        rw [hholds.values]
        exact Nat.mul_pos layout.rows_pos layout.rowWidth_pos
      have hlt : block.values < wordLimit32 := by
        rw [hholds.values]
        exact hvalues
      have hdelivers := @decode_delivers True device block _ scheduler hpos hlt
        (hdispatch scheduler) hholds.codes.owner hadmits hruns
      rcases hdelivers.run_cases (fun _ => hgrants) with
        ⟨words, _, hwords, rfl, -⟩ | ⟨_, _, -, -, hrefused⟩
      · exact congrArg Prod.fst hwords
      · exact absurd trivial hrefused

end WgpuFp4E2M1KvBlockV1

end NNIS
