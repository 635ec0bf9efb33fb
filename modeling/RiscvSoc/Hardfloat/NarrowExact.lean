import RiscvSoc.Hardfloat.NarrowRound

/-!
# When narrowing is rounding

A number in the subnormal range of the smaller format is rounded at a position that depends on its
exponent: the significand is or-ed with ones below that position, and one is added if it is rounded
up.

If it is not rounded up, the ones stay. They are below the unit in the last place, where a proper
number has zeros, and every unit that reads the whole fraction takes them for part of the number. So
a subnormal result is right exactly if it was rounded up.

Just below the smallest subnormal number there are two more cases. The position is kept in
`log2Up(outSigWidth + 1)` bits, in which `outSigWidth + 1` does not fit if it is a power of two. And
the exponent that is delivered is the code of zero if the smallest subnormal number has the smallest
exponent that is not; then the ones do no harm.
-/

namespace RiscvSoc

open Bits RoundingMode RecFloat

/-! ### Rounding to the smaller format -/

namespace Narrow

variable {c : NarrowConf} {x : RecFloat c.inSigWidth c.inExpWidth} {roundingMode : RoundingMode}

variable (c x roundingMode) in
/-- What the conversion delivers. -/
def result : FloatResult where
  datum := (out c x roundingMode).val
  overflow := (exc c x roundingMode).overflow
  inexact := (exc c x roundingMode).inexact

variable (c) in
/-- The smaller format. -/
def format : FloatFormat := recFormat c.outSigWidth c.outExpWidth

variable (c x roundingMode) in
/-- The significand rounded as it should be. -/
def nearest : ℕ :=
  roundingMode.roundShift x.sign x.significand (c.inSigWidth - c.outSigWidth - 1 + depth c x)

theorem format_emin : (format c).emin = 2 - 2 * unit c := by
  have h : (2 : ℤ) ^ (c.outExpWidth - 2) = 2 * unit c := by
    exact_mod_cast (outExp_units c).1
  rw [format, recFormat, h]

theorem format_emax : (format c).emax = 2 * unit c - 1 := by
  have h : (2 : ℤ) ^ (c.outExpWidth - 2) = 2 * unit c := by
    exact_mod_cast (outExp_units c).1
  rw [format, recFormat, h]

theorem mag_eq : x.mag =
    x.significand * 2 ^ ((expIn c x : ℤ) - bias c - c.inSigWidth) := by
  have h : (2 : ℤ) ^ (c.inExpWidth - 1) = bias c := by
    rw [bias]
    push_cast
    rfl
  rw [RecFloat.mag, h]
  rfl

theorem mag_pos : 0 < x.mag := by
  have hpos : 0 < x.significand := (Nat.two_pow_pos _).trans_le significand_bounds.1
  exact mul_pos (Nat.cast_pos.mpr hpos) (zpow_pos two_pos _)

/-- **Rounding to the smaller format.** -/
theorem roundMag_mag : (format c).roundMag roundingMode x.sign x.mag =
    nearest c x roundingMode *
      2 ^ ((expIn c x : ℤ) - bias c + depth c x - c.outSigWidth) := by
  have hlt := c.sig_lt
  have hle := le_bias c
  have hpos := unit_pos c
  have hmax : max ((expIn c x : ℤ) - bias c) (format c).emin = expIn c x - bias c + depth c x := by
    rw [format_emin, depth_eq]
    omega
  rw [mag_eq]
  exact (FloatFormat.roundMag_eq significand_bounds.1 significand_bounds.2 hmax
    (by rw [show (format c).fracBits = c.outSigWidth from rfl]; omega)).2

theorem place_succ : c.inSigWidth - c.outSigWidth - 1 + depth c x + 1 =
    c.inSigWidth - c.outSigWidth + depth c x := by
  have hlt := c.sig_lt
  omega

/-- The magnitude in units of the last place that is kept. -/
theorem mag_eq_div : x.mag = (x.significand : ℚ) /
    2 ^ (c.inSigWidth - c.outSigWidth + depth c x) *
      2 ^ ((expIn c x : ℤ) - bias c + depth c x - c.outSigWidth) := by
  have hlt := c.sig_lt
  rw [mag_eq, div_mul_eq_mul_div, mul_div_assoc, ← zpow_natCast, ← zpow_sub₀ two_ne_zero]
  congr 2
  push_cast [Nat.cast_sub (show c.outSigWidth ≤ c.inSigWidth by omega)]
  ring

theorem roundMag_ne_iff : (format c).roundMag roundingMode x.sign x.mag ≠ x.mag ↔
    x.significand % 2 ^ (c.inSigWidth - c.outSigWidth + depth c x) ≠ 0 := by
  have hpow : (0 : ℚ) < 2 ^ (c.inSigWidth - c.outSigWidth + depth c x) := by positivity
  have hexact : nearest c x roundingMode * 2 ^ (c.inSigWidth - c.outSigWidth + depth c x) =
      x.significand ↔
        x.significand % 2 ^ (c.inSigWidth - c.outSigWidth + depth c x) = 0 := by
    rw [← place_succ, nearest]
    exact roundShift_mul_eq_iff _ _
  refine not_congr ?_
  rw [roundMag_mag, mag_eq_div, mul_left_inj' (zpow_ne_zero _ two_ne_zero),
    eq_div_iff hpow.ne', ← hexact]
  norm_cast

theorem lt_roundMag_iff : x.mag < (format c).roundMag roundingMode x.sign x.mag ↔
    x.significand / 2 ^ (c.inSigWidth - c.outSigWidth + depth c x) <
      nearest c x roundingMode := by
  have hpow : (0 : ℚ) < 2 ^ (c.inSigWidth - c.outSigWidth + depth c x) := by positivity
  rw [roundMag_mag, mag_eq_div, mul_lt_mul_iff_left₀ (zpow_pos two_pos _), div_lt_iff₀ hpow,
    Nat.div_lt_iff_lt_mul (Nat.two_pow_pos _)]
  norm_cast

/-- A number that is not special is between infinity and zero. -/
theorem val_of_not_isSpecial (h : isSpecial c x = false) : x.val = .finite x.sign x.mag := by
  rw [isSpecial, Bool.or_eq_false_iff, decide_eq_false_iff_not] at h
  obtain ⟨hzero, hcode⟩ := h
  have hnan : ¬ x.isNaN = true := by
    rw [RecFloat.isNaN, decide_eq_true_iff]
    omega
  have hinf : ¬ x.isInf = true := by
    rw [isInf, decide_eq_true_iff]
    omega
  rw [RecFloat.val, if_neg hnan, if_neg hinf, hzero, if_neg (by simp)]

theorem round_val (hs : isSpecial c x = false)
    (hlt : (format c).roundMag roundingMode x.sign x.mag < 2 ^ ((format c).emax + 1)) :
    (format c).round roundingMode x.val =
      ⟨.finite x.sign (nearest c x roundingMode *
        2 ^ ((expIn c x : ℤ) - bias c + depth c x - c.outSigWidth)), false,
        decide (x.significand % 2 ^ (c.inSigWidth - c.outSigWidth + depth c x) ≠ 0)⟩ := by
  rw [val_of_not_isSpecial hs, FloatFormat.round_of_lt hlt, FloatResult.mk.injEq,
    FloatDatum.finite.injEq]
  exact ⟨⟨rfl, roundMag_mag⟩, rfl, decide_eq_decide.mpr roundMag_ne_iff⟩

/-! ### Zero, infinity and NaN -/

theorem expIn_ne_maxExp (h : isSpecial c x = true) : expIn c x ≠ maxExp c := by
  have hthree : 3 ≤ c.inExpWidth := c.three_le.trans c.exp_lt.le
  have hunits := two_pow_expWidth hthree
  have hpos := unit_pos c
  have hmax := maxExp_eq c
  have hunit : 2 * unit c ≤ 2 ^ (c.inExpWidth - 3) := by
    have hlt := c.exp_lt
    rw [unit, ← pow_succ']
    exact Nat.pow_le_pow_right two_pos (by have := c.three_le; omega)
  rw [bias, hunits.2.1] at hmax
  intro heq
  have hexp : x.exp.toNat = maxExp c := heq
  rw [isSpecial, Bool.or_eq_true, decide_eq_true_iff, isZero_iff hthree,
    expCode_eq hthree, hexp] at h
  have hdiv : maxExp c / 2 ^ (c.inExpWidth - 3) = 4 := by
    rw [Nat.div_eq_iff (Nat.two_pow_pos _)]
    omega
  rw [hdiv] at h
  omega

theorem out_expCode (h : isSpecial c x = true) :
    (out c x roundingMode).expCode = x.expCode := by
  have hcode : x.expCode < 8 := by
    have hthree : 3 ≤ c.inExpWidth := c.three_le.trans c.exp_lt.le
    refine lt_of_lt_of_le (bits_lt _ _ _) (Nat.pow_le_pow_right two_pos (show _ ≤ 3 by omega))
  have hexp : expOut c x roundingMode = x.expCode * unit c := by
    rw [expOut, if_pos h]
    rfl
  have hpos := unit_pos c
  have hlt : expOut c x roundingMode < 8 * unit c := by
    rw [hexp]
    exact Nat.mul_lt_mul_of_pos_right hcode hpos
  rw [expCode_eq c.three_le, out_exp _ hlt, hexp]
  exact Nat.mul_div_cancel _ hpos

theorem result_of_isSpecial (h : isSpecial c x = true) :
    result c x roundingMode = (format c).round roundingMode x.val := by
  have hover : isOverflow c x = false := by
    rw [isOverflow, h, Bool.not_true, Bool.and_false]
  have hunder : isUnderflow c x = false := by
    rw [isUnderflow, h, Bool.not_true, Bool.and_false]
  have hinexact : roundInexact c x = false := by
    rw [roundInexact, h, Bool.not_true, Bool.and_false]
  have hflags : (exc c x roundingMode).overflow = false ∧
      (exc c x roundingMode).inexact = false := by
    refine ⟨?_, ?_⟩
    · rw [exc, flagOverflow, hover, decide_eq_false (expIn_ne_maxExp h)]
      rfl
    · rw [exc, hinexact, hover, hunder]
      rfl
  have hval : (out c x roundingMode).val = x.val ∧
      (format c).round roundingMode x.val = ⟨x.val, false, false⟩ := by
    have hcode : (out c x roundingMode).expCode = x.expCode := out_expCode h
    rw [isSpecial, Bool.or_eq_true, decide_eq_true_iff] at h
    rcases h with hzero | hcode'
    · have hzero' : (out c x roundingMode).isZero = true := by
        rwa [isZero, hcode]
      rw [val_of_isZero hzero', val_of_isZero hzero]
      exact ⟨rfl, FloatFormat.round_zero⟩
    · rcases (by omega : x.expCode = 6 ∨ x.expCode = 7) with hinf | hnan
      · have hinf' : (out c x roundingMode).isInf = true := by
          rw [isInf, hcode, hinf]
          rfl
        rw [val_of_isInf hinf', val_of_isInf (decide_eq_true hinf)]
        exact ⟨rfl, rfl⟩
      · have hnan' : (out c x roundingMode).isNaN = true := by
          rw [RecFloat.isNaN, hcode, hnan]
          rfl
        rw [val_of_isNaN hnan', val_of_isNaN (decide_eq_true hnan)]
        exact ⟨rfl, rfl⟩
  rw [result, hflags.1, hflags.2, hval.1, hval.2]

/-! ### Numbers that are large enough -/

theorem nearest_bounds (h : depth c x = 0) : 2 ^ c.outSigWidth ≤ nearest c x roundingMode ∧
    nearest c x roundingMode ≤ 2 ^ (c.outSigWidth + 1) := by
  have hlt := c.sig_lt
  have hwidth : c.inSigWidth - c.outSigWidth - 1 + depth c x + 1 + c.outSigWidth =
      c.inSigWidth := by
    omega
  refine roundShift_bounds ?_ ?_ <;> rw [hwidth]
  · exact significand_bounds.1
  · exact significand_bounds.2

theorem sigRounded_of_depth_zero (hs : isSpecial c x = false) (h : depth c x = 0) :
    sigRounded c x roundingMode = nearest c x roundingMode := by
  have hsub : isSubnormal c x = false := by
    rw [Bool.eq_false_iff, ne_eq, isSubnormal_iff]
    omega
  have hpos := roundPosition_of_not hsub
  rw [sigRounded_eq hs, rounded, nearest, guardPlace, hpos, h, pow_zero, Nat.mul_one, Nat.sub_self,
    ite_self, Nat.add_zero]

theorem overflowToInf_eq :
    overflowToInf c x roundingMode = roundingMode.overflowsToInf x.sign := by
  cases roundingMode <;> cases hsign : x.sign <;>
    simp [overflowToInf, underflowToSmall, overflowsToInf, hsign]

theorem result_of_isOverflow (hs : isSpecial c x = false) (h : maxExp c < expIn c x) :
    result c x roundingMode =
      ⟨if roundingMode.overflowsToInf x.sign then .inf x.sign
        else .finite x.sign (format c).maxFinite, true, true⟩ := by
  have hover : isOverflow c x = true := by
    rw [isOverflow, decide_eq_true h, hs]
    rfl
  have hpos := unit_pos c
  have htwo := (outExp_units c).1
  have hsig : sigOut c x roundingMode = sigOverflow c x roundingMode := by
    rw [sigOut, hs, hover]
    rfl
  have hexp : expOut c x roundingMode = expOverflow c x roundingMode := by
    rw [expOut, hs, hover]
    rfl
  have hflags : (exc c x roundingMode).overflow = true ∧
      (exc c x roundingMode).inexact = true := by
    refine ⟨?_, ?_⟩
    · rw [exc, flagOverflow, hover]
      rfl
    · rw [exc, hover, Bool.or_true, Bool.true_or]
  rw [result, hflags.1, hflags.2, ← overflowToInf_eq]
  congr 1
  rw [expOverflow, htwo] at hexp
  rw [sigOverflow] at hsig
  cases hinf : overflowToInf c x roundingMode with
  | true =>
    rw [hinf, if_pos rfl] at hexp
    have hexp' := out_exp roundingMode (show expOut c x roundingMode < 8 * unit c by omega)
    refine val_of_isInf ?_
    rw [isInf_iff c.three_le, hexp', hexp]
    change 6 * unit c ≤ _ ∧ _ < 7 * unit c
    omega
  | false =>
    rw [hinf, if_neg (by simp)] at hexp hsig
    have hones := Nat.two_pow_pos c.outSigWidth
    rw [if_neg (by simp), out_val roundingMode hexp hsig (by omega) (by omega) (by omega)]
    rw [FloatFormat.maxFinite, format_emax, show (format c).fracBits = c.outSigWidth from rfl]
    congr 2
    · rw [Nat.cast_add, Nat.cast_sub hones]
      push_cast
      ring
    · congr 1
      omega

/-- **Numbers that are not below the normal ones are rounded correctly.** -/
theorem result_of_depth_zero (hs : isSpecial c x = false) (h : depth c x = 0) :
    result c x roundingMode = (format c).round roundingMode x.val := by
  have hpos := unit_pos c
  have hmax := maxExp_eq c
  have hle := le_bias c
  have hdepth := depth_eq c x
  have hbounds : _ ∧ nearest c x roundingMode ≤ 2 ^ (c.outSigWidth + 1) := nearest_bounds h
  have hsig : sigRounded c x roundingMode = nearest c x roundingMode :=
    sigRounded_of_depth_zero hs h
  have hplace : guardPlace c x + 1 = c.inSigWidth - c.outSigWidth + depth c x := by
    have hsub : isSubnormal c x = false := by
      rw [Bool.eq_false_iff, ne_eq, isSubnormal_iff]
      omega
    rw [guardPlace_succ, roundPosition_of_not hsub, h]
  have hmag : (format c).roundMag roundingMode x.sign x.mag = _ := roundMag_mag
  have hlimit := FloatFormat.two_pow_le_significand_iff hbounds.1 hbounds.2
    ((expIn c x : ℤ) - bias c) (format c).emax
  rw [h, Nat.cast_zero, add_zero] at hmag
  rw [← hmag, format_emax] at hlimit
  rcases Nat.lt_or_ge (maxExp c) (expIn c x) with hover | hin
  · rw [result_of_isOverflow hs hover, val_of_not_isSpecial hs, FloatFormat.round_of_le]
    rw [format_emax, hlimit]
    omega
  have hexp : expRounded c x roundingMode = _ := expRounded_eq (by omega) hin
  obtain ⟨hflag, hinexact⟩ : (exc c x roundingMode).overflow = _ ∧
      (exc c x roundingMode).inexact = _ := exc_flags hs (by omega) hin
  rw [hsig] at hexp hflag
  by_cases hcarry : expIn c x = maxExp c ∧ nearest c x roundingMode = 2 ^ (c.outSigWidth + 1)
  · -- the carry leaves the format, so the number was rounded up
    have hup : x.significand / 2 ^ (c.inSigWidth - c.outSigWidth - 1 + depth c x + 1) <
        nearest c x roundingMode := by
      have hlt := c.sig_lt
      rw [hcarry.2, Nat.div_lt_iff_lt_mul (Nat.two_pow_pos _), ← pow_add, place_succ, h,
        show c.outSigWidth + 1 + (c.inSigWidth - c.outSigWidth + 0) = c.inSigWidth + 1 by omega]
      exact significand_bounds.2
    rw [val_of_not_isSpecial hs, FloatFormat.round_of_le (by rw [format_emax, hlimit]; omega),
      overflowsToInf_of_lt hup, if_pos rfl, result, hflag, hinexact,
      decide_eq_true hcarry, hplace, ← place_succ,
      decide_eq_true (mod_ne_zero_of_lt hup)]
    rw [if_pos hcarry.2] at hexp
    have hout : expOut c x roundingMode = expRounded c x roundingMode := by
      rw [expOut, hs, isOverflow_of_le hin, isUnderflow_of_le (by omega)]
      rfl
    have hout' := out_exp roundingMode (show expOut c x roundingMode < 8 * unit c by omega)
    have hinf : (out c x roundingMode).isInf = true := by
      rw [isInf_iff c.three_le, hout', hout]
      change 6 * unit c ≤ _ ∧ _ < 7 * unit c
      omega
    rw [val_of_isInf hinf]
    rfl
  · have hlt : (format c).roundMag roundingMode x.sign x.mag < 2 ^ ((format c).emax + 1) := by
      rw [← not_le, format_emax, hlimit]
      omega
    have hcode : unit c ≤ expRounded c x roundingMode ∧
        expRounded c x roundingMode < 6 * unit c := by
      rw [hexp]
      split <;> omega
    rw [round_val hs hlt, result, hflag, hinexact, decide_eq_false hcarry, hplace,
      out_of_sigRounded hs (by omega) hin hcode.1 hcode.2, hsig, h, Nat.cast_zero, Nat.add_zero,
      add_zero]

/-! ### Numbers that are too small -/

theorem exp_add_depth (h : 0 < depth c x) :
    (expIn c x : ℤ) - bias c + depth c x = 2 - 2 * unit c := by
  have hle := le_bias c
  rw [depth_eq] at h ⊢
  omega

theorem nearest_le : nearest c x roundingMode ≤ 2 ^ (c.outSigWidth + 1) := by
  have hlt := c.sig_lt
  have hkept : x.significand / 2 ^ (c.inSigWidth - c.outSigWidth - 1 + depth c x + 1) <
      2 ^ (c.outSigWidth + 1) := by
    rw [Nat.div_lt_iff_lt_mul (Nat.two_pow_pos _), ← pow_add]
    refine significand_bounds.2.trans_le (Nat.pow_le_pow_right two_pos ?_)
    omega
  exact (roundShift_le _ _).trans hkept

theorem roundMag_lt_of_depth (h : 0 < depth c x) :
    (format c).roundMag roundingMode x.sign x.mag < 2 ^ ((format c).emax + 1) := by
  have hpos := unit_pos c
  rw [roundMag_mag, exp_add_depth h, format_emax]
  calc (nearest c x roundingMode : ℚ) * 2 ^ ((2 : ℤ) - 2 * unit c - c.outSigWidth)
      ≤ (2 ^ (c.outSigWidth + 1) : ℕ) * 2 ^ ((2 : ℤ) - 2 * unit c - c.outSigWidth) :=
        mul_le_mul_of_nonneg_right (Nat.cast_le.mpr nearest_le) (zpow_pos two_pos _).le
    _ = 2 ^ ((3 : ℤ) - 2 * unit c) := by
        rw [Nat.cast_pow, Nat.cast_ofNat, ← zpow_natCast, ← zpow_add₀ two_ne_zero]
        congr 1
        push_cast
        ring
    _ < 2 ^ ((2 : ℤ) * unit c - 1 + 1) := zpow_lt_zpow_right₀ one_lt_two (by omega)

theorem significand_ne_zero : x.significand ≠ 0 :=
  ((Nat.two_pow_pos _).trans_le significand_bounds.1).ne'

theorem significand_mod_of_le {n : ℕ} (h : c.inSigWidth < n) : x.significand % 2 ^ n ≠ 0 := by
  rw [Nat.mod_eq_of_lt (significand_bounds.2.trans_le (Nat.pow_le_pow_right two_pos h))]
  exact significand_ne_zero

theorem underflowToSmall_eq :
    underflowToSmall c x roundingMode = roundingMode.roundBit x.sign false false true := by
  cases roundingMode <;> cases hsign : x.sign <;>
    simp [underflowToSmall, roundBit, hsign]

/-- **Numbers that are too small for the format become zero or the smallest number.** -/
theorem result_of_isUnderflow (hs : isSpecial c x = false) (h : c.outSigWidth + 1 < depth c x) :
    result c x roundingMode = (format c).round roundingMode x.val := by
  have hlt := c.sig_lt
  have hpos := unit_pos c
  have hle := le_bias c
  have hsub := outSig_le_unit c
  have hmax := maxExp_eq c
  have hdepth := depth_eq c x
  have hnearest : nearest c x roundingMode = (underflowToSmall c x roundingMode).toNat := by
    rw [underflowToSmall_eq]
    refine roundShift_of_lt (Nat.pos_of_ne_zero significand_ne_zero) ?_
    exact significand_bounds.2.trans_le (Nat.pow_le_pow_right two_pos (by omega))
  have hover : isOverflow c x = false := isOverflow_of_le (by omega)
  have hunder : isUnderflow c x = true := by
    rw [isUnderflow, decide_eq_true (lt_minExp_iff.mpr h), hs]
    rfl
  have hsig : sigOut c x roundingMode = 0 := by
    rw [sigOut, hs, hover, hunder]
    rfl
  have hexp : expOut c x roundingMode = expUnderflow c x roundingMode := by
    rw [expOut, hs, hover, hunder]
    rfl
  have hflags : (exc c x roundingMode).overflow = false ∧
      (exc c x roundingMode).inexact = true := by
    refine ⟨?_, ?_⟩
    · rw [exc, flagOverflow, hover, decide_eq_false (by omega)]
      rfl
    · rw [exc, hunder, Bool.or_true]
  rw [round_val hs (roundMag_lt_of_depth (by omega)), result, hflags.1, hflags.2,
    decide_eq_true (significand_mod_of_le (by omega)), hnearest, exp_add_depth (by omega)]
  congr 1
  rw [expUnderflow, (outExp_units c).1] at hexp
  cases hsmall : underflowToSmall c x roundingMode with
  | true =>
    rw [hsmall, if_pos rfl] at hexp
    rw [out_val roundingMode hexp hsig (Nat.two_pow_pos _) (by omega) (by omega), Bool.toNat_true,
      Nat.cast_one, one_mul, Nat.add_zero, Nat.cast_pow, Nat.cast_ofNat, ← zpow_natCast,
      ← zpow_add₀ two_ne_zero]
    congr 2
    omega
  | false =>
    rw [hsmall, if_neg (by simp)] at hexp
    have hzero : (out c x roundingMode).isZero = true := by
      rw [isZero_iff c.three_le, out_exp _ (by omega), hexp]
      exact hpos
    rw [val_of_isZero hzero, Bool.toNat_false, Nat.cast_zero, zero_mul]
    rfl

/-! ### Subnormal numbers -/

/-- What is delivered stands for the rounded number exactly if it has the same significand, or if
both are zero. -/
theorem val_eq_iff (hs : isSpecial c x = false) (hlo : 1 ≤ depth c x)
    (hhi : depth c x ≤ c.outSigWidth + 1) :
    (out c x roundingMode).val = .finite x.sign (nearest c x roundingMode *
        2 ^ ((expIn c x : ℤ) - bias c + depth c x - c.outSigWidth)) ↔
      sigRounded c x roundingMode = nearest c x roundingMode * 2 ^ depth c x ∨
        nearest c x roundingMode = 0 ∧ depth c x = c.outSigWidth + 1 ∧
          c.outSigWidth = unit c + 2 ∧
            sigRounded c x roundingMode ≠ 2 ^ (c.outSigWidth + 1) := by
  have hpos := unit_pos c
  have hle := le_bias c
  have hsub := outSig_le_unit c
  have hmax := maxExp_eq c
  have hdepth := depth_eq c x
  have hin : expIn c x ≤ maxExp c := by omega
  have hexp : expRounded c x roundingMode = _ := expRounded_eq hhi hin
  have hsig : sigRounded c x roundingMode ≤ 2 ^ (c.outSigWidth + 1) := sigRounded_le
  rcases Nat.lt_or_ge (expRounded c x roundingMode) (unit c) with hzero | hcode
  · have hcarry : sigRounded c x roundingMode ≠ 2 ^ (c.outSigWidth + 1) := by
      intro hcarry
      rw [if_pos hcarry] at hexp
      omega
    rw [if_neg hcarry] at hexp
    have hout : expOut c x roundingMode = expRounded c x roundingMode := by
      rw [expOut, hs, isOverflow_of_le hin, isUnderflow_of_le hhi]
      rfl
    have hisZero : (out c x roundingMode).isZero = true := by
      rw [isZero_iff c.three_le, out_exp _ (by omega), hout]
      exact hzero
    have hdeep : depth c x = c.outSigWidth + 1 ∧ c.outSigWidth = unit c + 2 := by omega
    rw [val_of_isZero hisZero, FloatDatum.finite.injEq]
    constructor
    · rintro ⟨-, hval⟩
      have hnone := (mul_eq_zero.mp hval.symm).resolve_right (zpow_ne_zero _ two_ne_zero)
      exact Or.inr ⟨Nat.cast_eq_zero.mp hnone, hdeep.1, hdeep.2, hcarry⟩
    · rintro (hsame | ⟨hnone, -⟩)
      · have hnone : nearest c x roundingMode = 0 := by
          by_contra hne
          have hge := Nat.le_mul_of_pos_left (2 ^ depth c x) (Nat.pos_of_ne_zero hne)
          rw [← hsame, hdeep.1] at hge
          exact hcarry (le_antisymm hsig hge)
        exact ⟨rfl, by rw [hnone, Nat.cast_zero, zero_mul]⟩
      · exact ⟨rfl, by rw [hnone, Nat.cast_zero, zero_mul]⟩
  · have hcode' : expRounded c x roundingMode < 6 * unit c := by
      rw [hexp]
      split <;> omega
    have hscale : (2 : ℚ) ^ ((expIn c x : ℤ) - bias c + depth c x - c.outSigWidth) =
        2 ^ depth c x * 2 ^ ((expIn c x : ℤ) - bias c - c.outSigWidth) := by
      rw [← zpow_natCast, ← zpow_add₀ two_ne_zero]
      congr 1
      ring
    rw [out_of_sigRounded hs hhi hin hcode hcode', FloatDatum.finite.injEq, hscale, ← mul_assoc,
      mul_left_inj' (zpow_ne_zero _ two_ne_zero)]
    constructor
    · rintro ⟨-, hval⟩
      exact Or.inl (by exact_mod_cast hval)
    · rintro (hsame | ⟨-, hdeep, hwidth, hcarry⟩)
      · exact ⟨rfl, by exact_mod_cast hsame⟩
      · rw [if_neg hcarry] at hexp
        omega

/-- The position fits into its bits: what is delivered is right exactly if it was rounded up, or is
delivered as zero. -/
theorem val_eq_iff_of_fits (hs : isSpecial c x = false) (hlo : 1 ≤ depth c x)
    (hhi : depth c x ≤ c.outSigWidth + 1)
    (hfits : depth c x < 2 ^ log2Up (c.outSigWidth + 1)) :
    (out c x roundingMode).val = .finite x.sign (nearest c x roundingMode *
        2 ^ ((expIn c x : ℤ) - bias c + depth c x - c.outSigWidth)) ↔
      x.mag < (format c).roundMag roundingMode x.sign x.mag ∨
        ¬ x.mag < (format c).roundMag roundingMode x.sign x.mag ∧
          depth c x = c.outSigWidth + 1 ∧ c.outSigWidth = unit c + 2 := by
  have hplace : roundPosition c x = depth c x := by
    rw [roundPosition_of_depth hlo hhi, Nat.mod_eq_of_lt hfits]
  have hnearest : rounded c x roundingMode = nearest c x roundingMode := by
    rw [rounded, guardPlace, hplace]
    rfl
  have hup : x.mag < (format c).roundMag roundingMode x.sign x.mag ↔
      round c x roundingMode = true := by
    have hsucc : 2 ^ (c.inSigWidth - c.outSigWidth + depth c x) = 2 ^ (guardPlace c x + 1) := by
      rw [guardPlace_succ, hplace]
    rw [lt_roundMag_iff, Nat.div_lt_iff_lt_mul (Nat.two_pow_pos _), hsucc, ← hnearest, rounded,
      lt_roundShift_mul_iff, round_eq hs]
  have hone : 2 ^ 1 ≤ 2 ^ depth c x := Nat.pow_le_pow_right two_pos hlo
  rw [val_eq_iff hs hlo hhi, sigRounded_eq hs, hplace, hnearest, hup]
  cases hround : round c x roundingMode with
  | true => simp
  | false =>
    have hnone : depth c x = c.outSigWidth + 1 → nearest c x roundingMode = 0 := by
      intro hdeep
      have hlt := c.sig_lt
      rw [← hnearest, rounded, roundShift, ← round_eq hs, hround, guardPlace_succ,
        hplace, hdeep, Bool.toNat_false, Nat.add_zero]
      refine Nat.div_eq_of_lt (significand_bounds.2.trans_le ?_)
      exact Nat.pow_le_pow_right two_pos (by omega)
    simp only [Bool.false_eq_true, if_false, false_or, not_false_eq_true, true_and]
    constructor
    · rintro (hsame | ⟨-, hdeep, hwidth, -⟩)
      · omega
      · exact ⟨hdeep, hwidth⟩
    · rintro ⟨hdeep, hwidth⟩
      refine Or.inr ⟨hnone hdeep, hdeep, hwidth, ?_⟩
      rw [hnone hdeep, ← hdeep]
      omega

/-- Just below the smallest subnormal number nothing is kept. -/
theorem nearest_of_deep (h : depth c x = c.outSigWidth + 1) : nearest c x roundingMode =
    if x.mag < (format c).roundMag roundingMode x.sign x.mag then 1 else 0 := by
  have hlt := c.sig_lt
  have hplace : c.inSigWidth + 1 = c.inSigWidth - c.outSigWidth + depth c x := by omega
  have hnone : x.significand / 2 ^ (c.inSigWidth - c.outSigWidth + depth c x) = 0 := by
    rw [← hplace]
    exact Nat.div_eq_of_lt significand_bounds.2
  have hle : nearest c x roundingMode ≤ 1 := by
    have hstep : nearest c x roundingMode ≤ _ := roundShift_le _ _
    rw [place_succ, hnone] at hstep
    exact hstep
  by_cases hup : x.mag < (format c).roundMag roundingMode x.sign x.mag
  · rw [if_pos hup]
    rw [lt_roundMag_iff, hnone] at hup
    omega
  · rw [if_neg hup]
    rw [lt_roundMag_iff, hnone] at hup
    omega

/-- A number that is carried when it is rounded without a position is rounded up to the smallest
subnormal number, too. -/
theorem up_of_carry (h : depth c x = c.outSigWidth + 1)
    (hcarry : roundingMode.roundShift x.sign x.significand (c.inSigWidth - c.outSigWidth - 1) =
      2 ^ (c.outSigWidth + 1)) :
    x.mag < (format c).roundMag roundingMode x.sign x.mag := by
  have hlt := c.sig_lt
  have hsig := c.outSig_pos
  have hwidth : c.inSigWidth - c.outSigWidth - 1 + 1 = c.inSigWidth - c.outSigWidth := by omega
  have hplace : c.inSigWidth - c.outSigWidth - 1 + depth c x = c.inSigWidth := by omega
  have hkept : x.significand / 2 ^ (c.inSigWidth - c.outSigWidth) < 2 ^ (c.outSigWidth + 1) := by
    rw [Nat.div_lt_iff_lt_mul (Nat.two_pow_pos _), ← pow_add]
    refine significand_bounds.2.trans_le (Nat.pow_le_pow_right two_pos ?_)
    omega
  have hstep : roundingMode.roundShift x.sign _ _ ≤ _ :=
    roundShift_le x.significand (c.inSigWidth - c.outSigWidth - 1)
  rw [hwidth, hcarry] at hstep
  have hup : roundingMode.roundBit x.sign (x.significand.testBit (c.inSigWidth - c.outSigWidth))
      (x.significand.testBit (c.inSigWidth - c.outSigWidth - 1))
      (decide (x.significand % 2 ^ (c.inSigWidth - c.outSigWidth - 1) ≠ 0)) = true := by
    rw [roundShift, hwidth] at hcarry
    by_contra hno
    rw [Bool.not_eq_true] at hno
    rw [hno, Bool.toNat_false] at hcarry
    omega
  -- the leading one is the bit after the place, and it is not the only one
  have hguard : x.significand.testBit c.inSigWidth = true := by
    rw [significand, Nat.testBit_two_pow_add_eq, Nat.testBit_lt_two_pow x.sig.isLt]
    rfl
  have hrest : x.significand % 2 ^ c.inSigWidth ≠ 0 := by
    intro hzero
    rw [significand_mod le_rfl, Nat.mod_eq_of_lt sigIn_lt] at hzero
    rw [significand_div (Nat.sub_le _ _), hzero, Nat.zero_div, Nat.sub_sub_self (by omega)] at hstep
    have hdouble : 2 ^ (c.outSigWidth + 1) = 2 ^ c.outSigWidth * 2 := pow_succ ..
    have hbig : 2 ^ 1 ≤ 2 ^ c.outSigWidth := Nat.pow_le_pow_right two_pos hsig
    omega
  have hsucc : c.inSigWidth - c.outSigWidth + depth c x = c.inSigWidth + 1 := by omega
  rw [lt_roundMag_iff, Nat.div_lt_iff_lt_mul (Nat.two_pow_pos _), nearest, hplace, hsucc,
    lt_roundShift_mul_iff, hguard, decide_eq_true hrest]
  cases roundingMode with
  | nearestEven => rfl
  | minMag => exact hup
  | min => exact Bool.and_eq_true_iff.mpr ⟨(Bool.and_eq_true_iff.mp hup).1, rfl⟩
  | max => exact Bool.and_eq_true_iff.mpr ⟨(Bool.and_eq_true_iff.mp hup).1, rfl⟩

/-- The position does not fit into its bits: the number is rounded at the place of the normal
ones. -/
theorem val_eq_iff_of_wraps (hs : isSpecial c x = false) (h : depth c x = c.outSigWidth + 1)
    (hwraps : 2 ^ log2Up (c.outSigWidth + 1) ≤ depth c x) :
    (out c x roundingMode).val = .finite x.sign (nearest c x roundingMode *
        2 ^ ((expIn c x : ℤ) - bias c + depth c x - c.outSigWidth)) ↔
      x.mag < (format c).roundMag roundingMode x.sign x.mag ∧
          roundingMode.roundShift x.sign x.significand (c.inSigWidth - c.outSigWidth - 1) =
            2 ^ (c.outSigWidth + 1) ∨
        ¬ x.mag < (format c).roundMag roundingMode x.sign x.mag ∧ c.outSigWidth = unit c + 2 := by
  have hplace : roundPosition c x = 0 := by
    rw [roundPosition_of_depth (by omega) h.le,
      show depth c x = 2 ^ log2Up (c.outSigWidth + 1) from
        le_antisymm (h.le.trans (le_two_pow_log2Up _)) hwraps, Nat.mod_self]
  have hsig : sigRounded c x roundingMode =
      roundingMode.roundShift x.sign x.significand (c.inSigWidth - c.outSigWidth - 1) := by
    rw [sigRounded_eq hs, rounded, guardPlace, hplace, pow_zero, Nat.mul_one, Nat.sub_self,
      ite_self, Nat.add_zero, Nat.add_zero]
  have hlow : 2 ^ c.outSigWidth ≤ sigRounded c x roundingMode := le_sigRounded
  have hpos := Nat.two_pow_pos c.outSigWidth
  rw [val_eq_iff hs (by omega) h.le, nearest_of_deep h, hsig]
  by_cases hup : x.mag < (format c).roundMag roundingMode x.sign x.mag
  · rw [if_pos hup, Nat.one_mul, h]
    simp [hup]
  · have hcarry : ¬ roundingMode.roundShift x.sign x.significand
        (c.inSigWidth - c.outSigWidth - 1) = 2 ^ (c.outSigWidth + 1) :=
      fun hcarry => hup (up_of_carry h hcarry)
    rw [hsig] at hlow
    rw [if_neg hup, Nat.zero_mul]
    simp only [hup, hcarry, h, false_and, not_false_eq_true, true_and, false_or]
    omega

end Narrow

/-! ### When narrowing is right -/

/-- When narrowing delivers the rounded number: the number is not in the subnormal range, or it is
rounded up, or what is delivered is the code of zero and should be. -/
def NarrowConf.Good (c : NarrowConf) (roundingMode : RoundingMode)
    (x : RecFloat c.inSigWidth c.inExpWidth) : Prop :=
  Narrow.isSpecial c x = true ∨ Narrow.depth c x = 0 ∨ c.outSigWidth + 1 < Narrow.depth c x ∨
    (x.mag < (Narrow.format c).roundMag roundingMode x.sign x.mag ∧
      (Narrow.depth c x < 2 ^ log2Up (c.outSigWidth + 1) ∨
        roundingMode.roundShift x.sign x.significand (c.inSigWidth - c.outSigWidth - 1) =
          2 ^ (c.outSigWidth + 1))) ∨
    (¬ x.mag < (Narrow.format c).roundMag roundingMode x.sign x.mag ∧
      Narrow.depth c x = c.outSigWidth + 1 ∧ c.outSigWidth = 2 ^ (c.outExpWidth - 3) + 2 ∧
        (Narrow.depth c x < 2 ^ log2Up (c.outSigWidth + 1) ∨
          x.significand % 2 ^ (c.inSigWidth - c.outSigWidth) ≠ 0))

namespace Narrow

variable {c : NarrowConf} {x : RecFloat c.inSigWidth c.inExpWidth} {roundingMode : RoundingMode}

theorem result_eq_iff (hs : isSpecial c x = false) (hlo : 1 ≤ depth c x)
    (hhi : depth c x ≤ c.outSigWidth + 1) :
    result c x roundingMode = (format c).round roundingMode x.val ↔
      (out c x roundingMode).val = .finite x.sign (nearest c x roundingMode *
          2 ^ ((expIn c x : ℤ) - bias c + depth c x - c.outSigWidth)) ∧
        (x.significand % 2 ^ (guardPlace c x + 1) ≠ 0 ↔
          x.significand % 2 ^ (c.inSigWidth - c.outSigWidth + depth c x) ≠ 0) := by
  have hpos := unit_pos c
  have hle := le_bias c
  have hmax := maxExp_eq c
  have hdepth := depth_eq c x
  obtain ⟨hflag, hinexact⟩ : (exc c x roundingMode).overflow = _ ∧
      (exc c x roundingMode).inexact = _ := exc_flags hs hhi (by omega)
  have hno : ¬ (expIn c x = maxExp c ∧
      sigRounded c x roundingMode = 2 ^ (c.outSigWidth + 1)) := by omega
  rw [round_val hs (roundMag_lt_of_depth hlo), result, hflag, hinexact, decide_eq_false hno,
    FloatResult.mk.injEq, decide_eq_decide]
  exact and_congr_right fun _ => and_iff_right rfl

/-- **Narrowing is rounding exactly for good inputs.** -/
theorem result_eq_iff_good : result c x roundingMode = (format c).round roundingMode x.val ↔
    c.Good roundingMode x := by
  have hlt := c.sig_lt
  by_cases hs : isSpecial c x = true
  · exact iff_of_true (result_of_isSpecial hs) (Or.inl hs)
  have hs' := Bool.eq_false_iff.mpr hs
  rcases Nat.eq_zero_or_pos (depth c x) with hzero | hlo
  · exact iff_of_true (result_of_depth_zero hs' hzero) (Or.inr (Or.inl hzero))
  rcases Nat.lt_or_ge (c.outSigWidth + 1) (depth c x) with hdeep | hhi
  · exact iff_of_true (result_of_isUnderflow hs' hdeep) (Or.inr (Or.inr (Or.inl hdeep)))
  rw [result_eq_iff hs' hlo hhi, NarrowConf.Good, or_iff_right hs, or_iff_right hlo.ne',
    or_iff_right (Nat.not_lt.mpr hhi)]
  rcases Nat.lt_or_ge (depth c x) (2 ^ log2Up (c.outSigWidth + 1)) with hfits | hwraps
  · have hplace : guardPlace c x + 1 = c.inSigWidth - c.outSigWidth + depth c x := by
      rw [guardPlace_succ, roundPosition_of_depth hlo hhi, Nat.mod_eq_of_lt hfits]
    rw [val_eq_iff_of_fits hs' hlo hhi hfits, hplace, and_iff_left Iff.rfl]
    simp only [hfits, true_or, and_true]
    rfl
  · have hdeep : depth c x = c.outSigWidth + 1 :=
      le_antisymm hhi ((le_two_pow_log2Up _).trans hwraps)
    have hplace : guardPlace c x + 1 = c.inSigWidth - c.outSigWidth := by
      rw [guardPlace_succ, roundPosition_of_depth hlo hhi,
        show depth c x = 2 ^ log2Up (c.outSigWidth + 1) from
          le_antisymm (hhi.trans (le_two_pow_log2Up _)) hwraps, Nat.mod_self, Nat.add_zero]
    have hnonzero : x.significand % 2 ^ (c.inSigWidth - c.outSigWidth + depth c x) ≠ 0 :=
      significand_mod_of_le (by omega)
    have hcarry : roundingMode.roundShift x.sign x.significand
        (c.inSigWidth - c.outSigWidth - 1) = 2 ^ (c.outSigWidth + 1) →
          x.significand % 2 ^ (c.inSigWidth - c.outSigWidth) ≠ 0 := by
      intro hcarry
      rw [show c.inSigWidth - c.outSigWidth = c.inSigWidth - c.outSigWidth - 1 + 1 by omega]
      refine mod_ne_zero_of_lt (?_ : _ < roundingMode.roundShift x.sign _ _)
      rw [hcarry, Nat.div_lt_iff_lt_mul (Nat.two_pow_pos _), ← pow_add]
      refine significand_bounds.2.trans_le (Nat.pow_le_pow_right two_pos ?_)
      omega
    rw [val_eq_iff_of_wraps hs' hdeep hwraps, hplace, iff_true_right hnonzero]
    simp only [Nat.not_lt.mpr hwraps, false_or]
    simp only [hdeep, true_and, or_and_right, and_assoc]
    refine or_congr (and_congr_right fun _ => and_iff_left_of_imp hcarry) Iff.rfl

end Narrow

end RiscvSoc
