import RiscvSoc.Hardfloat.FloatN

/-!
# Recoding there and back

`floatNToRecodedFloatN` and `recodedFloatNToFloatN` draw the line between the subnormal and the
normal numbers in two ways: one by the exponent field of the float, the other by the code of the
recoded exponent and its low bits. The two meet: the exponents from `minSubnormal` up to `2 * unit +
1` are the subnormal ones, from either side. `recodedFloatNClassify` draws it in the second way.

The distance that a subnormal number is shifted back is read from as many low bits of the exponent
as count the bits of the fraction. They are enough: what is left of the exponent is a multiple of
it.
-/

namespace RiscvSoc

open Bits RecFloat RecodedToFloat

/-! ### The way out -/

namespace RecodedToFloat

open RecodeConf

variable {f : RecodeConf} {x : RecFloat f.sigWidth f.expWidth}

theorem expIn_lt : x.exp.toNat < 8 * f.unit := by
  rw [← (units (f := f)).2.2]
  exact x.exp.isLt

theorem codeHi_eq :
    bits (expIn x) (f.expWidth - 1) (f.expWidth - 2) = x.exp.toNat / (2 * f.unit) := by
  have hfour := f.four_le
  have hlt : expIn x < 2 ^ (f.expWidth - 1 + 1) := by
    rw [Nat.sub_add_cancel (by omega)]
    exact x.exp.isLt
  rw [bits_of_lt hlt, units.1]
  rfl

theorem isHighSubnormalIn_eq :
    isHighSubnormalIn x = decide (x.exp.toNat % (2 * f.unit) < 2) := by
  have hfour := f.four_le
  rw [isHighSubnormalIn, bits_zero_right, show f.expWidth - 3 + 1 = f.expWidth - 2 by omega,
    units.1]
  rfl

theorem isSubnormal_iff :
    isSubnormal x = true ↔ f.unit ≤ x.exp.toNat ∧ x.exp.toNat < 2 * f.unit + 2 := by
  have htwo := two_le_unit (f := f)
  have hcode : x.expCode = x.exp.toNat / f.unit := expCode_eq three_le
  have hlow := Nat.div_add_mod x.exp.toNat (2 * f.unit)
  have hlt := Nat.mod_lt x.exp.toNat (show 0 < 2 * f.unit by omega)
  rw [isSubnormal, Bool.or_eq_true, Bool.and_eq_true, decide_eq_true_iff, decide_eq_true_iff,
    isHighSubnormalIn_eq, decide_eq_true_iff, codeHi_eq, hcode, Nat.div_eq_iff (by omega)]
  constructor
  · rintro (hone | ⟨hone, hhigh⟩)
    · omega
    · rw [hone] at hlow
      omega
  · rintro ⟨hlo, hhi⟩
    rcases Nat.lt_or_ge x.exp.toNat (2 * f.unit) with hsmall | hbig
    · exact Or.inl (by omega)
    · refine Or.inr ⟨(Nat.div_eq_iff (by omega)).mpr (by omega), ?_⟩
      rw [Nat.mod_eq_sub_mod hbig, Nat.mod_eq_of_lt (by omega)]
      omega

theorem isNormal_iff :
    isNormal x = true ↔ 2 * f.unit + 2 ≤ x.exp.toNat ∧ x.exp.toNat < 6 * f.unit := by
  have htwo := two_le_unit (f := f)
  have hlow := Nat.div_add_mod x.exp.toNat (2 * f.unit)
  have hlt := Nat.mod_lt x.exp.toNat (show 0 < 2 * f.unit by omega)
  rw [isNormal, Bool.or_eq_true, Bool.and_eq_true, decide_eq_true_iff, decide_eq_true_iff,
    isHighSubnormalIn_eq, Bool.not_eq_true', decide_eq_false_iff_not, codeHi_eq]
  constructor
  · rintro (⟨hone, hhigh⟩ | htwo')
    · rw [hone] at hlow
      omega
    · rw [htwo'] at hlow
      omega
  · rintro ⟨hlo, hhi⟩
    rcases Nat.lt_or_ge x.exp.toNat (4 * f.unit) with hsmall | hbig
    · refine Or.inl ⟨(Nat.div_eq_iff (by omega)).mpr (by omega), ?_⟩
      rw [Nat.mod_eq_sub_mod (by omega), Nat.mod_eq_of_lt (by omega)]
      omega
    · exact Or.inr ((Nat.div_eq_iff (by omega)).mpr (by omega))

theorem isSpecial_iff : isSpecial x = true ↔ 6 * f.unit ≤ x.exp.toNat := by
  have htwo := two_le_unit (f := f)
  have hlt := expIn_lt (x := x)
  rw [isSpecial, decide_eq_true_iff, codeHi_eq, Nat.div_eq_iff (by omega)]
  omega

theorem isNaN_iff : isNaN x = true ↔ 7 * f.unit ≤ x.exp.toNat := by
  have htwo := two_le_unit (f := f)
  have hlt := expIn_lt (x := x)
  rw [isNaN, Bool.and_eq_true, isSpecial_iff, Nat.testBit_eq_decide_div_mod_eq, decide_eq_true_iff]
  change 6 * f.unit ≤ _ ∧ x.exp.toNat / f.unit % 2 = 1 ↔ _
  constructor
  · rintro ⟨hspecial, hodd⟩
    by_contra hinf
    have hsix : x.exp.toNat / f.unit = 6 := (Nat.div_eq_iff (by omega)).mpr (by omega)
    rw [hsix] at hodd
    exact absurd hodd (by decide)
  · intro hnan
    have hseven : x.exp.toNat / f.unit = 7 := (Nat.div_eq_iff (by omega)).mpr (by omega)
    exact ⟨by omega, by rw [hseven]⟩

/-- The distance of a subnormal number is how far its exponent is below the normal ones. -/
theorem denormShiftDist_eq (hlo : minSubnormal f.sigWidth f.expWidth ≤ x.exp.toNat)
    (hhi : x.exp.toNat < 2 * f.unit + 2) :
    denormShiftDist x = 2 * f.unit + 2 - x.exp.toNat := by
  have hsig := f.sig_lt
  have hwidth : 0 < log2Up f.sigWidth := by
    rw [Nat.pos_iff_ne_zero]
    intro h
    have hpos := f.sig_pos
    rw [h] at hsig
    omega
  have hlog := f.log_le
  rw [minSubnormal, units.1] at hlo
  have hlow : bits (expIn x) (log2Up f.sigWidth - 1) 0 = x.exp.toNat % 2 ^ log2Up f.sigWidth :=
    bits_low hwidth _
  obtain ⟨n, hn⟩ : 2 ^ log2Up f.sigWidth ∣ 2 * f.unit := by
    rw [← (units (f := f)).1]
    exact Nat.pow_dvd_pow 2 (by omega)
  have hmod := Nat.div_add_mod x.exp.toNat (2 ^ log2Up f.sigWidth)
  have hmodlt := Nat.mod_lt x.exp.toNat (Nat.two_pow_pos (log2Up f.sigWidth))
  rw [denormShiftDist, hlow]
  generalize x.exp.toNat / 2 ^ log2Up f.sigWidth = q at hmod
  rcases Nat.lt_or_ge (log2Up f.sigWidth) 2 with hone | htwo
  · -- one bit of the exponent, and one bit of fraction
    have hlog' : log2Up f.sigWidth = 1 := by omega
    rw [hlog'] at hsig hmod hmodlt ⊢
    change (2 + 4 - _) % 4 = _
    omega
  · rw [max_eq_right htwo]
    have hfour : 2 ^ 2 ≤ 2 ^ log2Up f.sigWidth := Nat.pow_le_pow_right two_pos htwo
    rcases Nat.lt_trichotomy q n with hlt | rfl | hgt
    · have hstep := Nat.mul_le_mul_left (2 ^ log2Up f.sigWidth) hlt
      have hnext : n = q + 1 := by
        by_contra hne
        have hbig := Nat.mul_le_mul_left (2 ^ log2Up f.sigWidth) (show q + 2 ≤ n by omega)
        rw [Nat.mul_add] at hbig
        omega
      rw [hnext, Nat.mul_succ] at hn
      rw [Nat.mod_eq_of_lt (by omega)]
      omega
    · rw [show 2 + 2 ^ log2Up f.sigWidth - x.exp.toNat % 2 ^ log2Up f.sigWidth =
        2 - x.exp.toNat % 2 ^ log2Up f.sigWidth + 2 ^ log2Up f.sigWidth by omega,
        Nat.add_mod_right, Nat.mod_eq_of_lt (by omega)]
      omega
    · have hstep := Nat.mul_le_mul_left (2 ^ log2Up f.sigWidth) hgt
      rw [Nat.mul_succ] at hstep
      omega

theorem out_fields {e s : ℕ} (hexp : expOut x = e) (hfract : fractOut x = s) (he : e < 4 * f.unit)
    (hs : s < 2 ^ f.sigWidth) : (recodedFloatNToFloatN x).exp.toNat = e ∧
      (recodedFloatNToFloatN x).fract.toNat = s := by
  rw [recodedFloatNToFloatN, BitVec.toNat_ofNat, BitVec.toNat_ofNat, hexp, hfract, units.2.1,
    Nat.mod_eq_of_lt he, Nat.mod_eq_of_lt hs]
  exact ⟨rfl, rfl⟩

theorem out_of_isZero (h : x.exp.toNat < f.unit) :
    (recodedFloatNToFloatN x).exp.toNat = 0 ∧ (recodedFloatNToFloatN x).fract.toNat = 0 := by
  have htwo := two_le_unit (f := f)
  have hnormal : isNormal x = false := by
    rw [Bool.eq_false_iff, ne_eq, isNormal_iff]
    omega
  have hspecial : isSpecial x = false := by
    rw [Bool.eq_false_iff, ne_eq, isSpecial_iff]
    omega
  have hnan : isNaN x = false := by
    rw [isNaN, hspecial, Bool.false_and]
  have hsub : isSubnormal x = false := by
    rw [Bool.eq_false_iff, ne_eq, isSubnormal_iff]
    omega
  refine out_fields ?_ ?_ (by omega) (Nat.two_pow_pos _)
  · rw [expOut, hnormal, hspecial, if_neg (by simp), if_neg (by simp)]
  · rw [fractOut, hnormal, hnan, Bool.or_false, hsub, if_neg (by simp),
      if_neg (by simp)]

theorem out_of_isSubnormal (hlo : minSubnormal f.sigWidth f.expWidth ≤ x.exp.toNat)
    (hcode : f.unit ≤ x.exp.toNat) (hhi : x.exp.toNat < 2 * f.unit + 2) :
    (recodedFloatNToFloatN x).exp.toNat = 0 ∧
      (recodedFloatNToFloatN x).fract.toNat =
        x.significand / 2 ^ (2 * f.unit + 2 - x.exp.toNat) := by
  have htwo := two_le_unit (f := f)
  have hdist := denormShiftDist_eq hlo hhi
  rw [minSubnormal, units.1] at hlo
  have hnormal : isNormal x = false := by
    rw [Bool.eq_false_iff, ne_eq, isNormal_iff]
    omega
  have hspecial : isSpecial x = false := by
    rw [Bool.eq_false_iff, ne_eq, isSpecial_iff]
    omega
  have hnan : isNaN x = false := by
    rw [isNaN, hspecial, Bool.false_and]
  have hsub : isSubnormal x = true := isSubnormal_iff.mpr ⟨hcode, hhi⟩
  have hcat : cat 1 f.sigWidth (fractIn x) = x.significand := by
    rw [cat, Nat.one_mul]
    rfl
  have hlt : x.significand / 2 ^ (2 * f.unit + 2 - x.exp.toNat) < 2 ^ f.sigWidth := by
    rw [Nat.div_lt_iff_lt_mul (Nat.two_pow_pos _), ← pow_add]
    have hsum : x.significand < 2 ^ (f.sigWidth + 1) := by
      rw [significand, pow_succ, Nat.mul_two]
      exact Nat.add_lt_add_left x.sig.isLt _
    exact hsum.trans_le (Nat.pow_le_pow_right two_pos (by omega))
  refine out_fields ?_ ?_ (by omega) hlt
  · rw [expOut, hnormal, hspecial, if_neg (by simp), if_neg (by simp)]
  · rw [fractOut, hnormal, hnan, Bool.or_false, hsub, if_neg (by simp), if_pos rfl,
      subnormalFractOut, hcat, hdist, Nat.shiftRight_eq_div_pow, bits_low f.sig_pos,
      Nat.mod_eq_of_lt hlt]

theorem out_of_isNormal (hlo : 2 * f.unit + 2 ≤ x.exp.toNat) (hhi : x.exp.toNat < 6 * f.unit) :
    (recodedFloatNToFloatN x).exp.toNat = x.exp.toNat - 2 * f.unit - 1 ∧
      (recodedFloatNToFloatN x).fract.toNat = x.sig.toNat := by
  have htwo := two_le_unit (f := f)
  have hfour := f.four_le
  have hnormal : isNormal x = true := isNormal_iff.mpr ⟨hlo, hhi⟩
  refine out_fields ?_ ?_ (by omega) x.sig.isLt
  · have hlow : bits (expIn x) (f.expWidth - 2) 0 = x.exp.toNat % (4 * f.unit) := by
      rw [bits_zero_right, show f.expWidth - 2 + 1 = f.expWidth - 1 by omega, units.2.1]
      rfl
    rw [expOut, hnormal, if_pos rfl, normalExpOut, hlow, units.1, units.2.1]
    rcases Nat.lt_or_ge x.exp.toNat (4 * f.unit) with hsmall | hbig
    · rw [Nat.mod_eq_of_lt hsmall, show x.exp.toNat + 4 * f.unit - (2 * f.unit + 1) =
        x.exp.toNat - 2 * f.unit - 1 + 4 * f.unit by omega, Nat.add_mod_right,
        Nat.mod_eq_of_lt (by omega)]
    · rw [Nat.mod_eq_sub_mod hbig, Nat.mod_eq_of_lt (show x.exp.toNat - 4 * f.unit < _ by omega),
        Nat.mod_eq_of_lt (by omega)]
      omega
  · rw [fractOut, hnormal, Bool.true_or, if_pos rfl]
    rfl

theorem out_of_isSpecial (h : 6 * f.unit ≤ x.exp.toNat) :
    (recodedFloatNToFloatN x).exp.toNat = 4 * f.unit - 1 ∧
      (recodedFloatNToFloatN x).fract.toNat =
        if x.exp.toNat < 7 * f.unit then 0 else x.sig.toNat := by
  have htwo := two_le_unit (f := f)
  have hnormal : isNormal x = false := by
    rw [Bool.eq_false_iff, ne_eq, isNormal_iff]
    omega
  have hspecial : isSpecial x = true := isSpecial_iff.mpr h
  have hsub : isSubnormal x = false := by
    rw [Bool.eq_false_iff, ne_eq, isSubnormal_iff]
    omega
  have hexp : expOut x = 4 * f.unit - 1 := by
    rw [expOut, hnormal, hspecial, if_neg Bool.false_ne_true, if_pos rfl, units.2.1]
  refine out_fields hexp ?_ (by omega) ?_
  · rw [fractOut, hnormal, Bool.false_or, hsub, if_neg Bool.false_ne_true]
    by_cases hinf : x.exp.toNat < 7 * f.unit
    · rw [if_pos hinf, if_neg]
      rw [isNaN_iff]
      omega
    · rw [if_neg hinf, if_pos (isNaN_iff.mpr (Nat.not_lt.mp hinf))]
      rfl
  · split
    · exact Nat.two_pow_pos _
    · exact x.sig.isLt

end RecodedToFloat

/-! ### What comes in is well formed -/

open RecodeConf

section Conversions

variable {f : FloatConf}

variable (x : FloatN f.sigWidth f.expWidth)

theorem recoded_wellFormed :
    (floatNToRecodedFloatN x).WellFormed := by
  have htwo := two_le_unit (f := f.toRecodeConf)
  have hsig : f.sigWidth ≤ f.unit + 2 := f.sig_le
  have hexp : x.exp.toNat < 4 * f.unit := FloatToRecoded.expIn_lt
  have hnan := RecFloat.isNaN_iff (x := floatNToRecodedFloatN x) three_le
  have hzero := isZero_iff (x := floatNToRecodedFloatN x) three_le
  change _ ↔ 7 * f.unit ≤ _ at hnan
  change _ ↔ _ < f.unit at hzero
  rcases Nat.eq_zero_or_pos x.exp.toNat with hexp0 | hpos
  · by_cases hfract : x.fract.toNat = 0
    · obtain ⟨hout, -⟩ := recoded_of_isZero hexp0 hfract
      rw [hout] at hnan hzero
      refine ⟨fun h => ?_, fun h => absurd (hnan.mp h) (by omega)⟩
      rw [hzero.mpr (by omega)] at h
      exact absurd h (by decide)
    · obtain ⟨hout, hsum⟩ := recoded_of_isSubnormal hexp0 hfract
      have hmsb : msb x.fract.toNat < f.sigWidth := msb_lt f.sig_pos x.fract.isLt
      rw [hout] at hnan
      refine ⟨fun _ _ _ => ?_, fun h => absurd (hnan.mp h) (by omega)⟩
      rw [hout, minSubnormal, units.1]
      refine ⟨by omega, ?_⟩
      rw [show 2 * f.unit + 2 - (2 * f.unit + 2 - f.sigWidth + msb x.fract.toNat) =
        f.sigWidth - msb x.fract.toNat by omega]
      have hdvd : 2 ^ (f.sigWidth - msb x.fract.toNat) ∣ (floatNToRecodedFloatN x).significand := by
        rw [hsum]
        exact Nat.dvd_mul_left _ _
      exact (Nat.dvd_add_right (Nat.pow_dvd_pow 2 (Nat.sub_le _ _))).mp hdvd
  rcases Nat.lt_or_ge x.exp.toNat (4 * f.unit - 1) with hlt | hge
  · obtain ⟨hout, -⟩ := recoded_of_isNormal hpos.ne' hlt
    rw [hout] at hnan
    refine ⟨proper_of_le ?_, fun h => absurd (hnan.mp h) (by omega)⟩
    rw [hout, units.1]
    omega
  · obtain ⟨hout, hfract⟩ := recoded_of_isSpecial (x := x) (by omega)
    refine ⟨proper_of_le ?_, fun h => ?_⟩
    · rw [hout, units.1]
      split <;> omega
    · rw [hfract]
      intro hzero'
      rw [hnan, hout, if_pos hzero'] at h
      omega

/-! ### What goes out -/

/-- **The way out preserves what a well-formed number stands for.** -/
theorem recodedFloatNToFloatN_val {x : RecFloat f.sigWidth f.expWidth} (h : x.WellFormed) :
    (recodedFloatNToFloatN x).val = x.val := by
  have htwo := two_le_unit (f := f.toRecodeConf)
  have hunits : (2 : ℤ) ^ (f.expWidth - 2) = 2 * f.unit := by
    exact_mod_cast (units (f := f.toRecodeConf)).1
  have hbias : (2 : ℤ) ^ (f.expWidth - 1) = 4 * f.unit := by
    exact_mod_cast (units (f := f.toRecodeConf)).2.1
  have htop := (units (f := f.toRecodeConf)).2.1
  rcases Nat.lt_or_ge x.exp.toNat f.unit with hzero | hlo
  · obtain ⟨hexp, hfract⟩ := out_of_isZero hzero
    rw [FloatN.val, hexp, htop, if_neg (by omega), if_pos rfl, hfract, Nat.cast_zero, zero_mul,
      val_of_isZero ((isZero_iff three_le).mpr hzero)]
    rfl
  rcases Nat.lt_or_ge x.exp.toNat (6 * f.unit) with hhi | hspecial
  · rw [val_of_code three_le hlo hhi, RecFloat.mag, hbias]
    obtain ⟨hmin, hdvd⟩ := h.proper.of_code three_le hlo hhi
    rcases Nat.lt_or_ge x.exp.toNat (2 * f.unit + 2) with hsub | hnormal
    · obtain ⟨hexp, hfract⟩ := out_of_isSubnormal hmin hlo hsub
      rw [minSubnormal, units.1] at hmin
      rw [units.1] at hdvd
      obtain ⟨n, hn⟩ : 2 ^ (2 * f.unit + 2 - x.exp.toNat) ∣ x.significand :=
        Nat.dvd_add (Nat.pow_dvd_pow 2 (by omega)) hdvd
      rw [FloatN.val, hexp, htop, if_neg (by omega), if_pos rfl, hfract, hunits, hn,
        Nat.mul_div_cancel_left _ (Nat.two_pow_pos _)]
      refine congrArg (FloatDatum.finite x.sign) ?_
      rw [Nat.cast_mul, mul_comm (_ : ℚ) (n : ℚ), mul_assoc, Nat.cast_pow, Nat.cast_ofNat,
        ← zpow_natCast, ← zpow_add₀ two_ne_zero]
      congr 2
      omega
    · obtain ⟨hexp, hfract⟩ := out_of_isNormal hnormal hhi
      rw [FloatN.val, hexp, htop, if_neg (by omega), if_neg (by omega), hfract, hunits]
      refine congrArg (FloatDatum.finite x.sign) ?_
      rw [significand]
      congr 2
      omega
  · obtain ⟨hexp, hfract⟩ := out_of_isSpecial hspecial
    rw [FloatN.val, hexp, htop, if_pos rfl, hfract]
    rcases Nat.lt_or_ge x.exp.toNat (7 * f.unit) with hinf | hnan
    · rw [if_pos (if_pos hinf), val_of_isInf ((RecFloat.isInf_iff three_le).mpr
        ⟨hspecial, hinf⟩)]
      rfl
    · have hnan' := (RecFloat.isNaN_iff three_le).mpr hnan
      rw [if_neg (Nat.not_lt.mpr hnan), if_neg (h.sig_ne hnan'), val_of_isNaN hnan']

/-- **Out of the recoded format comes what went in.** -/
theorem recodedFloatNToFloatN_recoded :
    recodedFloatNToFloatN (floatNToRecodedFloatN x) = x := by
  have htwo := two_le_unit (f := f.toRecodeConf)
  have hsig : f.sigWidth ≤ f.unit + 2 := f.sig_le
  have hexp : x.exp.toNat < 4 * f.unit := FloatToRecoded.expIn_lt
  have hfields : (recodedFloatNToFloatN (floatNToRecodedFloatN x)).exp.toNat = x.exp.toNat ∧
      (recodedFloatNToFloatN (floatNToRecodedFloatN x)).fract.toNat = x.fract.toNat := by
    rcases Nat.eq_zero_or_pos x.exp.toNat with hexp0 | hpos
    · by_cases hfract : x.fract.toNat = 0
      · obtain ⟨hout, -⟩ := recoded_of_isZero hexp0 hfract
        rw [hexp0, hfract]
        exact out_of_isZero (by omega)
      · obtain ⟨hout, hsum⟩ := recoded_of_isSubnormal hexp0 hfract
        have hmsb : msb x.fract.toNat < f.sigWidth := msb_lt f.sig_pos x.fract.isLt
        obtain ⟨hexp', hfract'⟩ :=
          out_of_isSubnormal (x := floatNToRecodedFloatN x)
            (by rw [minSubnormal, units.1]; omega) (by omega) (by omega)
        refine ⟨by rw [hexp', hexp0], ?_⟩
        rw [hfract', hsum, hout, show 2 * f.unit + 2 - (2 * f.unit + 2 - f.sigWidth +
          msb x.fract.toNat) = f.sigWidth - msb x.fract.toNat by omega,
          Nat.mul_div_cancel _ (Nat.two_pow_pos _)]
    rcases Nat.lt_or_ge x.exp.toNat (4 * f.unit - 1) with hlt | hge
    · obtain ⟨hout, hfract⟩ := recoded_of_isNormal hpos.ne' hlt
      obtain ⟨hexp', hfract'⟩ :=
        out_of_isNormal (x := floatNToRecodedFloatN x) (by omega) (by omega)
      exact ⟨by omega, by rw [hfract', hfract]⟩
    · obtain ⟨hout, hfract⟩ := recoded_of_isSpecial (x := x) (by omega)
      have hbig : 6 * f.unit ≤ (floatNToRecodedFloatN x).exp.toNat := by
        rw [hout]
        split <;> omega
      obtain ⟨hexp', hfract'⟩ := out_of_isSpecial hbig
      refine ⟨by omega, ?_⟩
      rw [hfract', hout, hfract]
      by_cases hzero : x.fract.toNat = 0
      · rw [if_pos hzero, if_pos (by omega), hzero]
      · rw [if_neg hzero, if_neg (by omega)]
  exact FloatN.ext rfl (BitVec.eq_of_toNat_eq hfields.1) (BitVec.eq_of_toNat_eq hfields.2)

theorem recoded_val : (floatNToRecodedFloatN x).val = x.val := by
  rw [← recodedFloatNToFloatN_val (recoded_wellFormed x), recodedFloatNToFloatN_recoded]

end Conversions

/-! ### Classes -/

/-- The classes of IEEE 754, in the order of the RISC-V class bits. -/
inductive FloatClass
  | negInf
  | negNormal
  | negSubnormal
  | negZero
  | posZero
  | posSubnormal
  | posNormal
  | posInf
  | signalingNaN
  | quietNaN
  deriving DecidableEq

/-- The bit that RISC-V assigns to a class. -/
def FloatClass.bit : FloatClass → ℕ
  | .negInf => 0
  | .negNormal => 1
  | .negSubnormal => 2
  | .negZero => 3
  | .posZero => 4
  | .posSubnormal => 5
  | .posNormal => 6
  | .posInf => 7
  | .signalingNaN => 8
  | .quietNaN => 9

/-- The class of a float, by its fields. -/
def FloatN.classOf {sigWidth expWidth : ℕ} (x : FloatN sigWidth expWidth) : FloatClass :=
  if x.exp.toNat = 2 ^ (expWidth - 1) - 1 then
    if x.fract.toNat = 0 then if x.sign then .negInf else .posInf
    else if x.fract.toNat.testBit (sigWidth - 1) then .quietNaN else .signalingNaN
  else if x.exp.toNat = 0 then
    if x.fract.toNat = 0 then if x.sign then .negZero else .posZero
    else if x.sign then .negSubnormal else .posSubnormal
  else if x.sign then .negNormal else .posNormal

/-- `Cat` of single bits. -/
def catBits : List Bool → ℕ := List.foldl (fun n b => cat n 1 b.toNat) 0

namespace Classify

variable {sigWidth expWidth : ℕ} (x : RecFloat sigWidth expWidth)

def isInf : Bool := isSpecial x && !x.exp.toNat.testBit (expWidth - 3)

def isQNaN : Bool := x.isNaN && x.sig.toNat.testBit (sigWidth - 1)

end Classify

/-- The conditions for subnormal and normal numbers are written as in `recodedFloatNToFloatN`. -/
def recodedFloatNClassify {sigWidth expWidth : ℕ} (x : RecFloat sigWidth expWidth) : ℕ :=
  catBits [Classify.isQNaN x, x.isSignalingNaN, Classify.isInf x && !x.sign,
    isNormal x && !x.sign, RecodedToFloat.isSubnormal x && !x.sign,
    x.isZero && !x.sign, x.isZero && x.sign, RecodedToFloat.isSubnormal x && x.sign,
    isNormal x && x.sign, Classify.isInf x && x.sign]

namespace Classify

variable {f : RecodeConf} {x : RecFloat f.sigWidth f.expWidth}

theorem isInf_iff :
    isInf x = true ↔ 6 * f.unit ≤ x.exp.toNat ∧ x.exp.toNat < 7 * f.unit := by
  have hnan := RecodedToFloat.isNaN_iff (x := x)
  rw [RecodedToFloat.isNaN, Bool.and_eq_true, RecodedToFloat.isSpecial_iff] at hnan
  rw [isInf, Bool.and_eq_true, RecodedToFloat.isSpecial_iff, Bool.not_eq_true']
  change 6 * f.unit ≤ _ ∧ x.exp.toNat.testBit (f.expWidth - 3) = true ↔ _ at hnan
  constructor
  · rintro ⟨hlo, hbit⟩
    refine ⟨hlo, ?_⟩
    by_contra hge
    have hset := (hnan.mpr (Nat.not_lt.mp hge)).2
    rw [hbit] at hset
    exact Bool.false_ne_true hset
  · rintro ⟨hlo, hhi⟩
    refine ⟨hlo, ?_⟩
    rw [Bool.eq_false_iff]
    intro hset
    exact absurd (hnan.mp ⟨hlo, hset⟩) (Nat.not_le.mpr hhi)

theorem ranges : isInf x = decide (6 * f.unit ≤ x.exp.toNat ∧ x.exp.toNat < 7 * f.unit) ∧
    isNormal x =
      decide (2 * f.unit + 2 ≤ x.exp.toNat ∧ x.exp.toNat < 6 * f.unit) ∧
    RecodedToFloat.isSubnormal x =
      decide (f.unit ≤ x.exp.toNat ∧ x.exp.toNat < 2 * f.unit + 2) ∧
    x.isZero = decide (x.exp.toNat < f.unit) ∧ x.isNaN = decide (7 * f.unit ≤ x.exp.toNat) := by
  refine ⟨?_, ?_, ?_, ?_, ?_⟩ <;> rw [Bool.eq_iff_iff, decide_eq_true_iff]
  · exact isInf_iff
  · exact RecodedToFloat.isNormal_iff
  · exact RecodedToFloat.isSubnormal_iff
  · exact isZero_iff three_le
  · exact RecFloat.isNaN_iff three_le

/-- The bits of a number in one of the five ranges. -/
def classBits (zero sub norm inf nan quiet sign : Bool) : List Bool :=
  [nan && quiet, nan && !quiet, inf && !sign, norm && !sign, sub && !sign, zero && !sign,
    zero && sign, sub && sign, norm && sign, inf && sign]

theorem classify_eq (zero sub norm inf nan : Bool)
    (hzero : decide (x.exp.toNat < f.unit) = zero)
    (hsub : decide (f.unit ≤ x.exp.toNat ∧ x.exp.toNat < 2 * f.unit + 2) = sub)
    (hnorm : decide (2 * f.unit + 2 ≤ x.exp.toNat ∧ x.exp.toNat < 6 * f.unit) = norm)
    (hinf : decide (6 * f.unit ≤ x.exp.toNat ∧ x.exp.toNat < 7 * f.unit) = inf)
    (hnan : decide (7 * f.unit ≤ x.exp.toNat) = nan) :
    recodedFloatNClassify x = catBits (classBits zero sub norm inf nan
      (x.sig.toNat.testBit (f.sigWidth - 1)) x.sign) := by
  obtain ⟨hinf', hnorm', hsub', hzero', hnan'⟩ := ranges (x := x)
  rw [recodedFloatNClassify, isQNaN, isSignalingNaN, hinf', hnorm', hsub', hzero', hnan',
    hinf, hnorm, hsub, hzero, hnan]
  rfl

variable (quiet sign : Bool)

theorem zero_bits : catBits (classBits true false false false false quiet sign) =
    2 ^ (if sign then FloatClass.negZero else .posZero).bit := by
  cases quiet <;> cases sign <;> rfl

theorem sub_bits : catBits (classBits false true false false false quiet sign) =
    2 ^ (if sign then FloatClass.negSubnormal else .posSubnormal).bit := by
  cases quiet <;> cases sign <;> rfl

theorem norm_bits : catBits (classBits false false true false false quiet sign) =
    2 ^ (if sign then FloatClass.negNormal else .posNormal).bit := by
  cases quiet <;> cases sign <;> rfl

theorem inf_bits : catBits (classBits false false false true false quiet sign) =
    2 ^ (if sign then FloatClass.negInf else .posInf).bit := by
  cases quiet <;> cases sign <;> rfl

theorem nan_bits : catBits (classBits false false false false true quiet sign) =
    2 ^ (if quiet then FloatClass.quietNaN else .signalingNaN).bit := by
  cases quiet <;> cases sign <;> rfl

end Classify

open RecodeConf in
/-- **The class bit of a recoded float is the one of the float.** -/
theorem recodedFloatNClassify_recoded {f : FloatConf} (x : FloatN f.sigWidth f.expWidth) :
    recodedFloatNClassify (floatNToRecodedFloatN x) = 2 ^ x.classOf.bit := by
  have htwo := two_le_unit (f := f.toRecodeConf)
  have hsig : f.sigWidth ≤ f.unit + 2 := f.sig_le
  have hexp : x.exp.toNat < 4 * f.unit := FloatToRecoded.expIn_lt
  have htop := (units (f := f.toRecodeConf)).2.1
  rw [FloatN.classOf, htop]
  rcases Nat.eq_zero_or_pos x.exp.toNat with hexp0 | hpos
  · rw [if_neg (by omega), if_pos hexp0]
    by_cases hfract : x.fract.toNat = 0
    · obtain ⟨hout, -⟩ := recoded_of_isZero hexp0 hfract
      rw [if_pos hfract, Classify.classify_eq true false false false false]
      · exact Classify.zero_bits _ _
      all_goals simp only [hout, decide_eq_true_iff, decide_eq_false_iff_not]
      all_goals omega
    · obtain ⟨hout, -⟩ := recoded_of_isSubnormal hexp0 hfract
      have hmsb : msb x.fract.toNat < f.sigWidth := msb_lt f.sig_pos x.fract.isLt
      rw [if_neg hfract, Classify.classify_eq false true false false false]
      · exact Classify.sub_bits _ _
      all_goals simp only [hout, decide_eq_true_iff, decide_eq_false_iff_not]
      all_goals omega
  rcases Nat.lt_or_ge x.exp.toNat (4 * f.unit - 1) with hlt | hge
  · obtain ⟨hout, -⟩ := recoded_of_isNormal hpos.ne' hlt
    rw [if_neg hlt.ne, if_neg hpos.ne', Classify.classify_eq false false true false false]
    · exact Classify.norm_bits _ _
    all_goals simp only [hout, decide_eq_true_iff, decide_eq_false_iff_not]
    all_goals omega
  · obtain ⟨hout, hfract⟩ := recoded_of_isSpecial (x := x) (by omega)
    rw [if_pos (by omega)]
    by_cases hzero : x.fract.toNat = 0
    · rw [if_pos hzero] at hout
      rw [if_pos hzero, Classify.classify_eq false false false true false]
      · exact Classify.inf_bits _ _
      all_goals simp only [hout, decide_eq_true_iff, decide_eq_false_iff_not]
      all_goals omega
    · rw [if_neg hzero] at hout
      rw [if_neg hzero, Classify.classify_eq false false false false true, hfract]
      · exact Classify.nan_bits _ _
      all_goals simp only [hout, decide_eq_true_iff, decide_eq_false_iff_not]
      all_goals omega

/-! ### Which formats -/

/-- The widths that are not a power of two and have room for the shift distance. -/
def RecodeConf.ofWidths {sigWidth expWidth : ℕ} (hpos : 0 < sigWidth)
    (hpow : ∀ k, sigWidth ≠ 2 ^ k) (hlog : log2Up sigWidth < expWidth - 1) : RecodeConf :=
  have hlt : sigWidth < 2 ^ log2Up sigWidth :=
    lt_of_le_of_ne (le_two_pow_log2Up sigWidth) (hpow _)
  have htwo : 2 ≤ log2Up sigWidth := by
    by_contra hsmall
    have hle := Nat.pow_le_pow_right two_pos (show log2Up sigWidth ≤ 1 by omega)
    have hone := hpow 0
    omega
  { sigWidth, expWidth
    sig_pos := hpos
    sig_lt := hlt
    four_le := by omega
    log_le := by omega }

/-- **The round trip, the value and the class are right for every float exactly if the subnormal
numbers have exponents of their own.** -/
theorem recoding_exact_iff {sigWidth expWidth : ℕ} (hpos : 0 < sigWidth)
    (hpow : ∀ k, sigWidth ≠ 2 ^ k) (hlog : log2Up sigWidth < expWidth - 1) :
    (∀ x : FloatN sigWidth expWidth,
      recodedFloatNToFloatN (floatNToRecodedFloatN x) = x ∧
        (floatNToRecodedFloatN x).val = x.val ∧
          recodedFloatNClassify (floatNToRecodedFloatN x) = 2 ^ x.classOf.bit) ↔
      sigWidth ≤ 2 ^ (expWidth - 3) + 2 := by
  constructor
  · intro h
    by_contra hbig
    let f := RecodeConf.ofWidths hpos hpow hlog
    let x : FloatN f.sigWidth f.expWidth := ⟨false, 0, 1⟩
    have hfract : x.fract.toNat = 1 := Nat.mod_eq_of_lt (Nat.one_lt_two_pow hpos.ne')
    have hlt := RecodeConf.sig_lt_two_unit (f := f)
    obtain ⟨hexp, -⟩ := recoded_of_isSubnormal (x := x) rfl (by omega)
    rw [hfract, show msb 1 = 0 from Nat.log_one_right 2] at hexp
    have hback := congrArg (fun y : FloatN f.sigWidth f.expWidth => y.fract.toNat) (h x).1
    change _ = x.fract.toNat at hback
    have hbig' : ¬ f.sigWidth ≤ f.unit + 2 := hbig
    have hzero := (out_of_isZero (x := floatNToRecodedFloatN x) (by omega)).2
    have hone : (recodedFloatNToFloatN (floatNToRecodedFloatN x)).fract.toNat = 1 :=
      hback.trans hfract
    omega
  · intro hle x
    let f : FloatConf := { RecodeConf.ofWidths hpos hpow hlog with sig_le := hle }
    exact ⟨recodedFloatNToFloatN_recoded (f := f) x, recoded_val (f := f) x,
      recodedFloatNClassify_recoded (f := f) x⟩

/-- Single precision. -/
theorem recoding_exact_single : (∀ x : FloatN 23 9,
    recodedFloatNToFloatN (floatNToRecodedFloatN x) = x ∧
      (floatNToRecodedFloatN x).val = x.val ∧
        recodedFloatNClassify (floatNToRecodedFloatN x) = 2 ^ x.classOf.bit) ↔
    23 ≤ 2 ^ (9 - 3) + 2 :=
  recoding_exact_iff (by decide) (ne_two_pow (m := 4) (by decide) (by decide)) (by decide)

/-- Seven bits of fraction and four of exponent: the smallest subnormal number becomes zero. -/
theorem recoding_narrow_exp : (∀ k, 7 ≠ 2 ^ k) ∧ log2Up 7 < 5 - 1 ∧
    recodedFloatNToFloatN (floatNToRecodedFloatN (⟨false, 0, 1⟩ : FloatN 7 5)) = ⟨false, 0, 0⟩ ∧
    (floatNToRecodedFloatN (⟨false, 0, 1⟩ : FloatN 7 5)).isZero = true :=
  ⟨ne_two_pow (m := 2) (by decide) (by decide), by decide, by decide, by decide⟩

end RiscvSoc
