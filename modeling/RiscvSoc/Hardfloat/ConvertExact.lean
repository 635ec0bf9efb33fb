import RiscvSoc.Hardfloat.NarrowExact

/-!
# Conversion there and back

Widening keeps what a number stands for: the exponent moves by the difference of the two biases, and
the fraction is extended by zeros. Narrowing takes it back if the number is not subnormal in the
smaller format: there the widened number is exact, so it is not rounded up, and the ones stay.
-/

namespace RiscvSoc

open Bits RecFloat

/-! ### Widening -/

namespace Widen

variable {c : WidenConf} {x : RecFloat c.inSigWidth c.inExpWidth}

theorem three_le_out (c : WidenConf) : 3 ≤ c.outExpWidth := c.three_le.trans c.exp_le

theorem units (c : WidenConf) :
    2 ^ (c.outExpWidth - c.inExpWidth) * 2 ^ (c.inExpWidth - 3) = 2 ^ (c.outExpWidth - 3) := by
  have hthree := c.three_le
  have hle := c.exp_le
  rw [← pow_add]
  congr 1
  omega

theorem unit_le (c : WidenConf) : 2 ^ (c.inExpWidth - 3) ≤ 2 ^ (c.outExpWidth - 3) :=
  Nat.pow_le_pow_right two_pos (Nat.sub_le_sub_right c.exp_le 3)

theorem expLSBs_eq : expLSBs c x = x.exp.toNat % (4 * 2 ^ (c.inExpWidth - 3)) := by
  have hthree := c.three_le
  rw [expLSBs, bits_zero_right, ← (two_pow_expWidth c.three_le).2.1]
  congr 2
  omega

/-- The exponent of a number between zero and infinity moves by the difference of the biases. -/
theorem expOut_of_code (hlo : 2 ^ (c.inExpWidth - 3) ≤ x.exp.toNat)
    (hhi : x.exp.toNat < 6 * 2 ^ (c.inExpWidth - 3)) :
    expOut c x = x.exp.toNat + 4 * 2 ^ (c.outExpWidth - 3) - 4 * 2 ^ (c.inExpWidth - 3) := by
  have hpos := Nat.two_pow_pos (c.inExpWidth - 3)
  have hunits := units c
  have hle := unit_le c
  have hsteps : 1 ≤ 2 ^ (c.outExpWidth - c.inExpWidth) := Nat.two_pow_pos _
  have hfour := (two_pow_expWidth c.three_le).2.1
  have hcode : ¬ x.expCode < 1 := by
    rw [expCode_eq c.three_le, Nat.div_lt_iff_lt_mul hpos]
    omega
  have hcode' : x.expCode < 6 := by
    rw [expCode_eq c.three_le, Nat.div_lt_iff_lt_mul hpos]
    omega
  rw [expOut, if_neg hcode, if_pos hcode', expLSBs_eq]
  by_cases hsmall : x.expCode < 4
  · rw [if_pos hsmall, cat, hfour]
    rw [expCode_eq c.three_le, Nat.div_lt_iff_lt_mul hpos] at hsmall
    rw [Nat.mod_eq_of_lt hsmall, Nat.mul_left_comm, Nat.sub_mul, hunits, Nat.one_mul]
    omega
  · rw [if_neg hsmall, cat, hfour]
    rw [expCode_eq c.three_le, Nat.div_lt_iff_lt_mul hpos] at hsmall
    rw [Nat.mod_eq_sub_mod (by omega), Nat.mod_eq_of_lt (by omega), Nat.mul_left_comm, hunits]
    omega

theorem out_exp (h : expOut c x < 8 * 2 ^ (c.outExpWidth - 3)) :
    (out c x).exp.toNat = expOut c x := by
  rw [out, BitVec.toNat_ofNat, (two_pow_expWidth (three_le_out c)).2.2, Nat.mod_eq_of_lt h]

theorem out_sig (h : x.isNaN = false) :
    (out c x).sig.toNat = x.sig.toNat * 2 ^ (c.outSigWidth - c.inSigWidth) := by
  have hlt : x.sig.toNat * 2 ^ (c.outSigWidth - c.inSigWidth) < 2 ^ c.outSigWidth := by
    calc x.sig.toNat * 2 ^ (c.outSigWidth - c.inSigWidth)
        < 2 ^ c.inSigWidth * 2 ^ (c.outSigWidth - c.inSigWidth) :=
          Nat.mul_lt_mul_of_pos_right x.sig.isLt (Nat.two_pow_pos _)
      _ = 2 ^ c.outSigWidth := by rw [← pow_add, Nat.add_sub_cancel' c.sig_le]
  rw [out, BitVec.toNat_ofNat, sigOut, h, if_neg (by simp), Nat.zero_or, Nat.shiftLeft_eq,
    Nat.mod_eq_of_lt hlt]

theorem out_significand (h : x.isNaN = false) :
    (out c x).significand = x.significand * 2 ^ (c.outSigWidth - c.inSigWidth) := by
  rw [significand, out_sig h, significand, Nat.add_mul, ← pow_add,
    Nat.add_sub_cancel' c.sig_le]

/-- What a number between zero and infinity looks like in the larger format. -/
theorem out_of_code (hlo : 2 ^ (c.inExpWidth - 3) ≤ x.exp.toNat)
    (hhi : x.exp.toNat < 6 * 2 ^ (c.inExpWidth - 3)) :
    (out c x).exp.toNat =
        x.exp.toNat + 4 * 2 ^ (c.outExpWidth - 3) - 4 * 2 ^ (c.inExpWidth - 3) ∧
      (out c x).significand = x.significand * 2 ^ (c.outSigWidth - c.inSigWidth) := by
  have hle := unit_le c
  have hexp := expOut_of_code hlo hhi
  refine ⟨?_, out_significand ?_⟩
  · rw [out_exp (by omega), hexp]
  · rw [Bool.eq_false_iff, ne_eq, isNaN_iff c.three_le]
    omega

/-- **Widening preserves what a number stands for.** -/
theorem out_val : (out c x).val = x.val := by
  have hpos := Nat.two_pow_pos (c.outExpWidth - 3)
  have hle := unit_le c
  have hthree := three_le_out c
  rcases Nat.lt_or_ge x.exp.toNat (2 ^ (c.inExpWidth - 3)) with hlt | hlo
  · have hzero := (isZero_iff c.three_le).mpr hlt
    have hexp : expOut c x = x.exp.toNat := by
      have hcode : x.expCode < 1 := by
        rw [expCode_eq c.three_le, Nat.div_eq_of_lt hlt]
        exact Nat.one_pos
      rw [expOut, if_pos hcode, expLSBs_eq, Nat.mod_eq_of_lt (by omega)]
    have hzero' : (out c x).isZero = true := by
      rw [isZero_iff hthree, out_exp (by omega), hexp]
      omega
    rw [val_of_isZero hzero, val_of_isZero hzero']
    rfl
  rcases Nat.lt_or_ge x.exp.toNat (6 * 2 ^ (c.inExpWidth - 3)) with hhi | hbig
  · obtain ⟨hexp, hsig⟩ := out_of_code hlo hhi
    rw [val_of_code c.three_le hlo hhi,
      val_of_code hthree (by omega) (by omega), FloatDatum.finite.injEq]
    refine ⟨rfl, ?_⟩
    have hin : (2 : ℤ) ^ (c.inExpWidth - 1) = 4 * 2 ^ (c.inExpWidth - 3) := by
      exact_mod_cast (two_pow_expWidth c.three_le).2.1
    have hout : (2 : ℤ) ^ (c.outExpWidth - 1) = 4 * 2 ^ (c.outExpWidth - 3) := by
      exact_mod_cast (two_pow_expWidth hthree).2.1
    have hunits : ((2 ^ (c.inExpWidth - 3) : ℕ) : ℤ) ≤ ((2 ^ (c.outExpWidth - 3) : ℕ) : ℤ) :=
      Nat.cast_le.mpr hle
    push_cast at hunits
    rw [RecFloat.mag, RecFloat.mag, hsig, Nat.cast_mul, mul_assoc, Nat.cast_pow, Nat.cast_ofNat,
      ← zpow_natCast, ← zpow_add₀ two_ne_zero, hin, hout, hexp]
    congr 2
    rw [Nat.cast_sub c.sig_le, Nat.cast_sub (by omega)]
    push_cast
    ring
  · have hcode : 6 ≤ x.expCode := by
      rw [expCode_eq c.three_le, Nat.le_div_iff_mul_le (Nat.two_pow_pos _)]
      omega
    rcases Nat.lt_or_ge x.expCode 7 with hsix | hseven
    · have hinf : x.isInf = true := decide_eq_true (by omega)
      have hexp : expOut c x = 6 * 2 ^ (c.outExpWidth - 3) := by
        rw [expOut, if_neg (by omega), if_neg (by omega), if_neg (by omega), if_pos hsix,
          (two_pow_expWidth hthree).1]
        omega
      have hinf' : (out c x).isInf = true := by
        rw [isInf_iff hthree, out_exp (by omega), hexp]
        omega
      rw [val_of_isInf hinf, val_of_isInf hinf']
      rfl
    · have hnan : x.isNaN = true := by
        rw [isNaN_iff c.three_le]
        rwa [expCode_eq c.three_le, ge_iff_le,
          Nat.le_div_iff_mul_le (Nat.two_pow_pos _)] at hseven
      have hexp : expOut c x = 7 * 2 ^ (c.outExpWidth - 3) := by
        rw [expOut, if_neg (by omega), if_neg (by omega), if_neg (by omega), if_neg (by omega)]
      have hnan' : (out c x).isNaN = true := by
        rw [isNaN_iff hthree, out_exp (by omega), hexp]
      rw [val_of_isNaN hnan, val_of_isNaN hnan']

end Widen

/-! ### Numbers of a format -/

namespace RecFloat

variable {sigWidth expWidth : ℕ} {x : RecFloat sigWidth expWidth}

/-- **A multiple of the smallest subnormal number has zeros where its fraction has no place.** -/
theorem proper_of_multiple (hE : 3 ≤ expWidth) {n : ℕ} (h : x.mag =
    n * 2 ^ ((recFormat sigWidth expWidth).emin - (recFormat sigWidth expWidth).fracBits)) :
    x.Proper := by
  intro _ _ _
  obtain ⟨htwo, hfour, -⟩ := two_pow_expWidth hE
  have hfour' : (2 : ℤ) ^ (expWidth - 1) = (4 * 2 ^ (expWidth - 3) : ℕ) := by exact_mod_cast hfour
  have htwo' : (2 : ℤ) ^ (expWidth - 2) = (2 * 2 ^ (expWidth - 3) : ℕ) := by exact_mod_cast htwo
  rw [mag, recFormat, hfour', htwo'] at h
  have heq : x.significand * 2 ^ x.exp.toNat = n * 2 ^ (2 * 2 ^ (expWidth - 3) + 2) :=
    FloatFormat.mul_two_pow_eq (s := (4 * 2 ^ (expWidth - 3) : ℕ) + sigWidth) h (by ring)
      (by push_cast; ring)
  rw [minSubnormal, htwo]
  rcases Nat.lt_or_ge x.exp.toNat (2 * 2 ^ (expWidth - 3) + 2) with hlt | hge
  · obtain ⟨d, hd⟩ := Nat.exists_eq_add_of_lt hlt
    have hpow : 2 ^ (2 * 2 ^ (expWidth - 3) + 2) = 2 ^ (d + 1) * 2 ^ x.exp.toNat := by
      rw [hd, ← pow_add]
      congr 1
      omega
    have hsig : x.significand = n * 2 ^ (d + 1) := by
      rw [hpow, ← Nat.mul_assoc] at heq
      exact Nat.eq_of_mul_eq_mul_right (Nat.two_pow_pos _) heq
    have hdvd : 2 ^ (d + 1) ∣ x.significand := Dvd.intro_left n hsig.symm
    have hd' : d + 1 < sigWidth + 1 := by
      rw [← Nat.pow_lt_pow_iff_right Nat.one_lt_two]
      have hpos : 0 < x.significand := Nat.add_pos_left (Nat.two_pow_pos _) _
      refine (Nat.le_of_dvd hpos hdvd).trans_lt ?_
      rw [significand, pow_succ, Nat.mul_two]
      exact Nat.add_lt_add_left x.sig.isLt _
    refine ⟨by omega, ?_⟩
    rw [show 2 * 2 ^ (expWidth - 3) + 2 - x.exp.toNat = d + 1 by omega]
    exact (Nat.dvd_add_right (Nat.pow_dvd_pow 2 (Nat.le_of_lt_succ hd'))).mp hdvd
  · refine ⟨by omega, ?_⟩
    rw [Nat.sub_eq_zero_of_le hge]
    exact one_dvd _

theorem proper_of_round (hE : 3 ≤ expWidth) {mode : RoundingMode} {d : FloatDatum}
    (h : x.val = ((recFormat sigWidth expWidth).round mode d).datum) : x.Proper := by
  intro hzero hinf hnan
  have hval : x.val = .finite x.sign x.mag := by
    rw [val, hnan, hinf, hzero]
    rfl
  have hrange : (recFormat sigWidth expWidth).emin ≤ (recFormat sigWidth expWidth).emax := by
    have htwo : (2 : ℤ) ≤ 2 ^ (expWidth - 2) := by
      have hle : 2 ^ 1 ≤ 2 ^ (expWidth - 2) := Nat.pow_le_pow_right two_pos (by omega)
      exact_mod_cast hle
    change (2 : ℤ) - 2 ^ (expWidth - 2) ≤ 2 ^ (expWidth - 2) - 1
    omega
  rw [hval] at h
  obtain ⟨n, hn⟩ := FloatFormat.exists_round_eq_mul hrange h.symm
  exact proper_of_multiple hE hn hzero hinf hnan

end RecFloat

/-! ### There and back -/

/-- The widening conversion back. -/
abbrev NarrowConf.widen (c : NarrowConf) : WidenConf where
  inSigWidth := c.outSigWidth
  inExpWidth := c.outExpWidth
  outSigWidth := c.inSigWidth
  outExpWidth := c.inExpWidth
  sig_le := (Nat.le_succ _).trans c.sig_lt.le
  exp_le := c.exp_lt.le
  three_le := c.three_le

namespace Narrow

variable {c : NarrowConf} {x : RecFloat c.outSigWidth c.outExpWidth}

variable (c x) in
/-- A number of the smaller format in the larger one. -/
def widened : RecFloat c.inSigWidth c.inExpWidth := Widen.out c.widen x

theorem val_widened : (widened c x).val = x.val := Widen.out_val

/-- A number of the smaller format between zero and infinity, in the larger one. -/
theorem widened_of_code (hlo : unit c ≤ x.exp.toNat) (hhi : x.exp.toNat < 6 * unit c) :
    expIn c (widened c x) = x.exp.toNat + bias c - 4 * unit c ∧
      (widened c x).significand = x.significand * 2 ^ (c.inSigWidth - c.outSigWidth) ∧
        isSpecial c (widened c x) = false ∧
          depth c (widened c x) = 2 * unit c + 2 - x.exp.toNat := by
  have hthree : 3 ≤ c.inExpWidth := c.three_le.trans c.exp_lt.le
  have hfour := (two_pow_expWidth hthree).2.1
  have hle := le_bias c
  have hunit : unit c ≤ 2 ^ (c.inExpWidth - 3) := Widen.unit_le c.widen
  obtain ⟨hexp, hsig⟩ : (widened c x).exp.toNat = _ ∧ (widened c x).significand = _ :=
    Widen.out_of_code (c := c.widen) hlo hhi
  have hexp' : expIn c (widened c x) = x.exp.toNat + bias c - 4 * unit c := by
    rw [bias, hfour]
    exact hexp
  have hbias : bias c = 4 * 2 ^ (c.inExpWidth - 3) := hfour
  refine ⟨hexp', hsig, ?_, by rw [depth_eq, hexp']; omega⟩
  have hin : (widened c x).exp.toNat = x.exp.toNat + bias c - 4 * unit c := hexp'
  have hzero : (widened c x).isZero = false := by
    rw [Bool.eq_false_iff, ne_eq, isZero_iff hthree, hin]
    omega
  have hcode : (widened c x).expCode < 6 := by
    rw [expCode_eq hthree, Nat.div_lt_iff_lt_mul (Nat.two_pow_pos _), hin]
    omega
  rw [isSpecial, hzero, decide_eq_false (by omega)]
  rfl

variable {roundingMode : RoundingMode}

theorem roundMag_widened (hproper : x.Proper) (hlo : unit c ≤ x.exp.toNat)
    (hhi : x.exp.toNat < 6 * unit c) :
    (format c).roundMag roundingMode (widened c x).sign (widened c x).mag =
      (widened c x).mag := by
  obtain ⟨-, hsig, -, hdepth⟩ := widened_of_code hlo hhi
  have hpos := unit_pos c
  obtain ⟨hexp, hdvd⟩ := hproper.of_code c.three_le hlo hhi
  rw [minSubnormal, (outExp_units c).1] at hexp
  rw [(outExp_units c).1, ← hdepth] at hdvd
  have hdvd' : 2 ^ depth c (widened c x) ∣ x.significand :=
    Nat.dvd_add (Nat.pow_dvd_pow 2 (by omega)) hdvd
  by_contra hne
  rw [← ne_eq, roundMag_ne_iff, hsig, Nat.add_comm, pow_add, Nat.mul_mod_mul_right] at hne
  exact hne (by rw [Nat.mod_eq_zero_of_dvd hdvd', Nat.zero_mul])

theorem isSpecial_widened (h : x.exp.toNat < unit c ∨ 6 * unit c ≤ x.exp.toNat) :
    isSpecial c (widened c x) = true := by
  by_contra hs
  have hfinite := val_of_not_isSpecial (Bool.eq_false_iff.mpr hs)
  rw [val_widened] at hfinite
  rcases h with hlt | hge
  · rw [val_of_isZero ((isZero_iff c.three_le).mpr hlt),
      FloatDatum.finite.injEq] at hfinite
    exact mag_pos.ne hfinite.2
  · rcases Nat.lt_or_ge x.exp.toNat (7 * unit c) with hinf | hnan
    · rw [val_of_isInf ((isInf_iff c.three_le).mpr ⟨hge, hinf⟩)] at hfinite
      exact FloatDatum.noConfusion hfinite
    · rw [val_of_isNaN ((isNaN_iff c.three_le).mpr hnan)] at hfinite
      exact FloatDatum.noConfusion hfinite

/-- **A number of the smaller format is rounded to itself.** -/
theorem round_widened (hproper : x.Proper) :
    (format c).round roundingMode (widened c x).val = ⟨x.val, false, false⟩ := by
  have hpos := unit_pos c
  rw [val_widened]
  rcases Nat.lt_or_ge x.exp.toNat (unit c) with hzero | hlo
  · rw [val_of_isZero ((isZero_iff c.three_le).mpr hzero)]
    exact FloatFormat.round_zero
  rcases Nat.lt_or_ge x.exp.toNat (6 * unit c) with hhi | hbig
  · obtain ⟨hexp, -, hs, -⟩ := widened_of_code hlo hhi
    have hexact : (format c).roundMag roundingMode (widened c x).sign (widened c x).mag =
        (widened c x).mag := roundMag_widened hproper hlo hhi
    have hle := le_bias c
    have hbounds : 2 ^ c.inSigWidth ≤ (widened c x).significand ∧
      (widened c x).significand < 2 ^ (c.inSigWidth + 1) := significand_bounds
    have hlt : (format c).roundMag roundingMode (widened c x).sign (widened c x).mag <
        2 ^ ((format c).emax + 1) := by
      have hbelow := FloatFormat.two_pow_le_significand_iff hbounds.1 hbounds.2.le
        ((expIn c (widened c x) : ℤ) - bias c) (format c).emax
      rw [hexact, mag_eq, ← not_le, hbelow, format_emax, hexp]
      have hne := hbounds.2.ne
      omega
    rw [← val_widened (x := x), val_of_not_isSpecial hs, FloatFormat.round_of_lt hlt, hexact,
      decide_eq_false (not_not_intro rfl)]
  rcases Nat.lt_or_ge x.exp.toNat (7 * unit c) with hinf | hnan
  · rw [val_of_isInf ((isInf_iff c.three_le).mpr ⟨hbig, hinf⟩)]
    rfl
  · rw [val_of_isNaN ((isNaN_iff c.three_le).mpr hnan)]
    rfl

/-- **Narrowing takes widening back exactly for the numbers that are not subnormal.** -/
theorem out_val_widened_iff (hproper : x.Proper) :
    (out c (widened c x) roundingMode).val = x.val ↔ ¬ x.IsSubnormal := by
  have hpos := unit_pos c
  have hsub := outSig_le_unit c
  have hback : result c (widened c x) roundingMode =
      (format c).round roundingMode (widened c x).val →
        (out c (widened c x) roundingMode).val = x.val := by
    intro h
    rw [round_widened hproper] at h
    exact congrArg FloatResult.datum h
  rw [RecFloat.IsSubnormal, minSubnormal, (outExp_units c).1]
  by_cases hspecial : x.exp.toNat < unit c ∨ 6 * unit c ≤ x.exp.toNat
  · refine iff_of_true (hback (result_of_isSpecial (isSpecial_widened hspecial))) ?_
    omega
  rw [not_or, Nat.not_lt, Nat.not_le] at hspecial
  obtain ⟨hlo, hhi⟩ := hspecial
  obtain ⟨-, -, hs, hdepth⟩ := widened_of_code hlo hhi
  rcases Nat.eq_zero_or_pos (depth c (widened c x)) with hzero | hdeep
  · exact iff_of_true (hback (result_of_depth_zero hs hzero)) (by omega)
  · have hmin := (hproper.of_code c.three_le hlo hhi).1
    have hexact : (format c).roundMag roundingMode (widened c x).sign (widened c x).mag =
        (widened c x).mag := roundMag_widened hproper hlo hhi
    rw [minSubnormal, (outExp_units c).1] at hmin
    refine iff_of_false (fun hval => ?_) (by omega)
    have hfits : depth c (widened c x) < 2 ^ log2Up (c.outSigWidth + 1) :=
      lt_of_lt_of_le (by omega) (le_two_pow_log2Up _)
    rw [← val_widened (x := x), val_of_not_isSpecial hs, ← hexact, roundMag_mag] at hval
    rcases (val_eq_iff_of_fits hs hdeep (by omega) hfits).mp hval with hup | ⟨-, hsmall, -⟩
    · rw [hexact] at hup
      exact lt_irrefl _ hup
    · omega

end Narrow

/-- **Narrowing is rounding to the smaller format exactly for good inputs; widening preserves what a
number stands for; narrowing takes it back exactly for the numbers that are not subnormal.** -/
theorem NarrowConf.exact_iff (c : NarrowConf) :
    (∀ roundingMode x,
      (Narrow.result c x roundingMode = (Narrow.format c).round roundingMode x.val ∧
        (Narrow.out c x roundingMode).Proper ↔ c.Good roundingMode x)) ∧
      (∀ (w : WidenConf) x, (Widen.out w x).val = x.val ∧ (Widen.exc w x).overflow = false ∧
        (Widen.exc w x).inexact = false) ∧
      ∀ roundingMode (x : RecFloat c.outSigWidth c.outExpWidth), x.Proper →
        ((Narrow.out c (Narrow.widened c x) roundingMode).val = x.val ↔ ¬ x.IsSubnormal) := by
  refine ⟨fun roundingMode x => ?_, fun w x => ⟨Widen.out_val, rfl, rfl⟩,
    fun roundingMode x hproper => Narrow.out_val_widened_iff hproper⟩
  rw [Narrow.result_eq_iff_good, and_iff_left_iff_imp]
  intro hgood
  have hdatum := congrArg FloatResult.datum (Narrow.result_eq_iff_good.mpr hgood)
  exact proper_of_round c.three_le hdatum

/-! ### From double to single precision -/

theorem double_sig_lt : 23 + 1 < 52 := by decide

theorem double_exp_lt : 9 < 12 := by decide

theorem single_sig_pos : 0 < 23 := by decide

theorem single_three_le : 3 ≤ 9 := by decide

theorem single_sig_le : 23 ≤ 2 ^ (9 - 3) + 2 := by decide

/-- The conversion of `FPToFP`. -/
def doubleToSingle : NarrowConf where
  inSigWidth := 52
  inExpWidth := 12
  outSigWidth := 23
  outExpWidth := 9
  sig_lt := double_sig_lt
  exp_lt := double_exp_lt
  outSig_pos := single_sig_pos
  three_le := single_three_le
  outSig_le := single_sig_le

/-- Half the smallest normal number of single precision. -/
def halfNormal : RecFloat doubleToSingle.outSigWidth doubleToSingle.outExpWidth := ⟨false, 129, 0⟩

theorem halfNormal_proper : halfNormal.Proper := fun _ _ _ => by decide

theorem halfNormal_isSubnormal : halfNormal.IsSubnormal := ⟨by decide, by decide⟩

/-- It is a number of single precision, but it does not come back from double precision. -/
theorem halfNormal_lost :
    Narrow.widened doubleToSingle halfNormal = ⟨false, 1921, 0⟩ ∧
      (Narrow.out doubleToSingle (Narrow.widened doubleToSingle halfNormal) .nearestEven).val ≠
        halfNormal.val ∧
      Narrow.result doubleToSingle (Narrow.widened doubleToSingle halfNormal) .nearestEven ≠
        (Narrow.format doubleToSingle).round .nearestEven
          (Narrow.widened doubleToSingle halfNormal).val := by
  have hlost := fun h : (Narrow.out doubleToSingle (Narrow.widened doubleToSingle halfNormal)
    .nearestEven).val = halfNormal.val =>
      (Narrow.out_val_widened_iff halfNormal_proper).mp h halfNormal_isSubnormal
  refine ⟨rfl, hlost, fun h => ?_⟩
  rw [Narrow.round_widened halfNormal_proper] at h
  exact hlost (congrArg FloatResult.datum h)

end RiscvSoc
