import RiscvSoc.Hardfloat.Convert

/-!
# What narrowing computes

The rounding stage of `recodedFloatNToRecodedFloatM`, in terms of the significand of its operand.
The position is how far the exponent lies below those of the normal numbers, as far as it fits into
its bits. The decision to round up is the one of rounding in general; what is delivered is the
rounded significand, scaled up to the position again, and ones in the places below if it was not
rounded up.
-/

namespace RiscvSoc

open Bits

namespace Narrow

variable (c : NarrowConf) (x : RecFloat c.inSigWidth c.inExpWidth) (roundingMode : RoundingMode)

/-! ### Exponents -/

/-- How far the exponent lies below those of the normal numbers. -/
def depth : ℕ := maxSubnormalExp c + 1 - expIn c x

/-- The unit of the exponent code. -/
def unit : ℕ := 2 ^ (c.outExpWidth - 3)

/-- The exponent of one in the input format. -/
def bias : ℕ := 2 ^ (c.inExpWidth - 1)

theorem unit_pos : 0 < unit c := Nat.two_pow_pos _

theorem outSig_le_unit : c.outSigWidth ≤ unit c + 2 := c.outSig_le

theorem outExp_units : 2 ^ (c.outExpWidth - 2) = 2 * unit c ∧
    2 ^ (c.outExpWidth - 1) = 4 * unit c ∧ 2 ^ c.outExpWidth = 8 * unit c :=
  RecFloat.two_pow_expWidth c.three_le

/-- The input exponents are in steps of the output exponents. -/
theorem bias_eq : ∃ n, bias c = 8 * unit c * (n + 1) := by
  have hle : c.outExpWidth ≤ c.inExpWidth - 1 := Nat.le_sub_one_of_lt c.exp_lt
  have hpos := Nat.two_pow_pos (c.inExpWidth - 1 - c.outExpWidth)
  refine ⟨2 ^ (c.inExpWidth - 1 - c.outExpWidth) - 1, ?_⟩
  rw [Nat.sub_add_cancel hpos, ← (outExp_units c).2.2, ← pow_add, Nat.add_sub_cancel' hle, bias]

theorem le_bias : 8 * unit c ≤ bias c := by
  obtain ⟨n, hn⟩ := bias_eq c
  rw [hn]
  exact Nat.le_mul_of_pos_right _ (Nat.succ_pos n)

theorem maxExp_eq : maxExp c = bias c + 2 * unit c - 1 := by
  rw [maxExp, (outExp_units c).1, bias]

theorem maxSubnormalExp_eq : maxSubnormalExp c = bias c + 1 - 2 * unit c := by
  have hpos := unit_pos c
  have hle := le_bias c
  rw [maxSubnormalExp, (outExp_units c).1, ← bias]
  omega

theorem minExp_eq : minExp c = bias c + 1 - 2 * unit c - c.outSigWidth := by
  rw [← maxSubnormalExp_eq]
  rfl

theorem depth_eq : depth c x = bias c + 2 - 2 * unit c - expIn c x := by
  have hle := le_bias c
  rw [depth, maxSubnormalExp_eq]
  omega

variable {c x roundingMode}

theorem isSubnormal_iff :
    isSubnormal c x = true ↔ 1 ≤ depth c x ∧ depth c x ≤ c.outSigWidth + 1 := by
  have hpos := unit_pos c
  have hle := le_bias c
  have hsig := outSig_le_unit c
  rw [isSubnormal, Bool.and_eq_true, decide_eq_true_iff, decide_eq_true_iff, minExp_eq,
    maxSubnormalExp_eq, depth_eq]
  omega

theorem lt_minExp_iff : expIn c x < minExp c ↔ c.outSigWidth + 1 < depth c x := by
  have hpos := unit_pos c
  have hle := le_bias c
  have hsig := outSig_le_unit c
  rw [minExp_eq, depth_eq]
  omega

theorem roundPosition_of_depth (hlo : 1 ≤ depth c x) (hhi : depth c x ≤ c.outSigWidth + 1) :
    roundPosition c x = depth c x % 2 ^ log2Up (c.outSigWidth + 1) := by
  have hpos : 0 < log2Up (c.outSigWidth + 1) := by
    rw [Nat.pos_iff_ne_zero]
    intro h
    have hle := le_two_pow_log2Up (c.outSigWidth + 1)
    rw [h] at hle
    have hsig := c.outSig_pos
    omega
  rw [roundPosition, if_pos (isSubnormal_iff.mpr ⟨hlo, hhi⟩), bits_low hpos]
  rfl

theorem roundPosition_of_not (h : isSubnormal c x = false) : roundPosition c x = 0 := by
  rw [roundPosition, h, if_neg (by simp), bits, Nat.zero_div, Nat.zero_mod]

theorem roundPosition_le : roundPosition c x ≤ c.outSigWidth + 1 := by
  by_cases h : isSubnormal c x = true
  · obtain ⟨hlo, hhi⟩ := isSubnormal_iff.mp h
    rw [roundPosition_of_depth hlo hhi]
    exact (Nat.mod_le _ _).trans hhi
  · rw [roundPosition_of_not (Bool.eq_false_iff.mpr h)]
    exact Nat.zero_le _

/-! ### The decision -/

variable (c x) in
/-- The place of the first bit that is dropped. -/
def guardPlace : ℕ := c.inSigWidth - c.outSigWidth - 1 + roundPosition c x

theorem guardPlace_succ :
    guardPlace c x + 1 = c.inSigWidth - c.outSigWidth + roundPosition c x := by
  have hlt := c.sig_lt
  rw [guardPlace]
  omega

theorem sigIn_lt : sigIn c x < 2 ^ c.inSigWidth := x.sig.isLt

theorem significand_div {n : ℕ} (h : n ≤ c.inSigWidth) :
    x.significand / 2 ^ n = 2 ^ (c.inSigWidth - n) + sigIn c x / 2 ^ n := by
  have hsplit : 2 ^ c.inSigWidth = 2 ^ (c.inSigWidth - n) * 2 ^ n := by
    rw [← pow_add, Nat.sub_add_cancel h]
  rw [RecFloat.significand, hsplit, Nat.add_comm, Nat.add_mul_div_right _ _ (Nat.two_pow_pos n),
    Nat.add_comm]
  rfl

theorem significand_mod {n : ℕ} (h : n ≤ c.inSigWidth) :
    x.significand % 2 ^ n = sigIn c x % 2 ^ n := by
  have hsplit : 2 ^ c.inSigWidth = 2 ^ (c.inSigWidth - n) * 2 ^ n := by
    rw [← pow_add, Nat.sub_add_cancel h]
  rw [RecFloat.significand, hsplit, Nat.mul_add_mod']
  rfl

/-- The significand with its low bits cut off, shifted to the position. -/
theorem sigMSBsShifted_eq : sigMSBsShifted c x =
    x.significand / 2 ^ (c.inSigWidth - c.outSigWidth - 1) *
      2 ^ (c.outSigWidth + 1 - roundPosition c x) := by
  have hlt := c.sig_lt
  have htop : bits (sigIn c x) (c.inSigWidth - 1) (c.inSigWidth - c.outSigWidth - 1) =
      sigIn c x / 2 ^ (c.inSigWidth - c.outSigWidth - 1) := by
    refine bits_of_lt ?_
    rw [Nat.sub_add_cancel (by omega)]
    exact sigIn_lt
  have hexp : 2 ^ (c.outSigWidth + 1) =
      2 ^ (c.outSigWidth + 1 - roundPosition c x) * 2 ^ roundPosition c x := by
    rw [← pow_add, Nat.sub_add_cancel roundPosition_le]
  rw [sigMSBsShifted, htop, cat, cat, Nat.add_zero, Nat.one_mul, Nat.shiftRight_eq_div_pow,
    significand_div (by omega), show c.inSigWidth - (c.inSigWidth - c.outSigWidth - 1) =
      c.outSigWidth + 1 by omega]
  generalize 2 ^ (c.outSigWidth + 1) + sigIn c x / 2 ^ (c.inSigWidth - c.outSigWidth - 1) = t
  rw [hexp, ← Nat.mul_assoc, Nat.mul_div_cancel _ (Nat.two_pow_pos _)]

theorem testBit_sigMSBsShifted (j : ℕ) :
    (sigMSBsShifted c x).testBit (c.outSigWidth + 1 + j) =
      x.significand.testBit (guardPlace c x + j) := by
  have hle := roundPosition_le (c := c) (x := x)
  have hplace : c.inSigWidth - c.outSigWidth - 1 +
      (c.outSigWidth + 1 + j - (c.outSigWidth + 1 - roundPosition c x)) = guardPlace c x + j := by
    rw [guardPlace]
    omega
  rw [sigMSBsShifted_eq, Nat.testBit_mul_two_pow, decide_eq_true (by omega), Bool.true_and,
    Nat.testBit_div_two_pow, Nat.add_comm, hplace]

theorem subNormStickyBit_eq :
    subNormStickyBit c x = decide (x.significand % 2 ^ guardPlace c x ≠ 0) := by
  have hlt := c.sig_lt
  have hle := roundPosition_le (c := c) (x := x)
  have hlow : bits (sigIn c x) (c.inSigWidth - c.outSigWidth - 2) 0 =
      x.significand % 2 ^ (c.inSigWidth - c.outSigWidth - 1) := by
    rw [bits_zero_right, significand_mod (by omega)]
    congr 2
    omega
  have hexp : 2 ^ (c.outSigWidth + 1) =
      2 ^ roundPosition c x * 2 ^ (c.outSigWidth + 1 - roundPosition c x) := by
    rw [← pow_add, Nat.add_sub_cancel' hle]
  have hhigh : bits (sigMSBsShifted c x) c.outSigWidth 0 =
      x.significand / 2 ^ (c.inSigWidth - c.outSigWidth - 1) % 2 ^ roundPosition c x *
        2 ^ (c.outSigWidth + 1 - roundPosition c x) := by
    rw [bits_zero_right, sigMSBsShifted_eq, hexp, Nat.mul_mod_mul_right]
  have hsplit : x.significand % 2 ^ guardPlace c x =
      x.significand % 2 ^ (c.inSigWidth - c.outSigWidth - 1) +
        2 ^ (c.inSigWidth - c.outSigWidth - 1) *
          (x.significand / 2 ^ (c.inSigWidth - c.outSigWidth - 1) % 2 ^ roundPosition c x) := by
    rw [guardPlace, pow_add, Nat.mod_mul]
  rw [subNormStickyBit, hlow, hhigh, hsplit, ← Bool.decide_or, decide_eq_decide]
  have hscale := (Nat.two_pow_pos (c.outSigWidth + 1 - roundPosition c x)).ne'
  have hscale' := (Nat.two_pow_pos (c.inSigWidth - c.outSigWidth - 1)).ne'
  simp only [ne_eq, Nat.add_eq_zero_iff, Nat.mul_eq_zero, hscale, hscale', or_false, false_or]
  tauto

theorem roundInexact_eq (h : isSpecial c x = false) :
    roundInexact c x = decide (x.significand % 2 ^ (guardPlace c x + 1) ≠ 0) := by
  have hbits := RoundingMode.mod_two_pow_succ_eq x.significand (guardPlace c x)
  have hpos := (Nat.two_pow_pos (guardPlace c x)).ne'
  rw [roundInexact, roundBits1, ← Nat.add_zero (c.outSigWidth + 1), testBit_sigMSBsShifted,
    subNormStickyBit_eq, h, Bool.not_false, Bool.and_true, Nat.add_zero, hbits]
  cases x.significand.testBit (guardPlace c x) <;> simp

/-- **The decision to round up is the one of rounding.** -/
theorem round_eq (h : isSpecial c x = false) : round c x roundingMode =
    roundingMode.roundBit x.sign (x.significand.testBit (guardPlace c x + 1))
      (x.significand.testBit (guardPlace c x))
      (decide (x.significand % 2 ^ guardPlace c x ≠ 0)) := by
  have hguard : roundBits1 c x = x.significand.testBit (guardPlace c x) :=
    testBit_sigMSBsShifted 0
  have hlast : roundBits2 c x = x.significand.testBit (guardPlace c x + 1) :=
    testBit_sigMSBsShifted 1
  have hrest := subNormStickyBit_eq (c := c) (x := x)
  rw [← hguard, ← hlast, ← hrest]
  cases roundingMode with
  | nearestEven => rfl
  | minMag => rfl
  | min => rw [round, roundInexact, h, Bool.not_false, Bool.and_true, RoundingMode.roundBit]
  | max => rw [round, roundInexact, h, Bool.not_false, Bool.and_true, RoundingMode.roundBit]

/-! ### The significand -/

/-- The significand rounded at the position. -/
def rounded (c : NarrowConf) (x : RecFloat c.inSigWidth c.inExpWidth)
    (roundingMode : RoundingMode) : ℕ :=
  roundingMode.roundShift x.sign x.significand (guardPlace c x)

theorem not_roundMaskShifted :
    2 ^ (c.outSigWidth + 2) - 1 - roundMaskShifted c x = 2 ^ roundPosition c x - 1 := by
  have hlt : roundPosition c x < c.outSigWidth + 2 :=
    Nat.lt_succ_of_le roundPosition_le
  have hpos := Nat.two_pow_pos (roundPosition c x)
  have hle : 2 ^ roundPosition c x ≤ 2 ^ (c.outSigWidth + 2) :=
    Nat.pow_le_pow_right two_pos hlt.le
  have hmask : roundMaskShifted c x = 2 ^ (c.outSigWidth + 2) - 2 ^ roundPosition c x := by
    have hsplit : (2 ^ (c.outSigWidth + 2) - 1) * 2 ^ roundPosition c x =
        2 ^ (c.outSigWidth + 2) - 2 ^ roundPosition c x +
          (2 ^ roundPosition c x - 1) * 2 ^ (c.outSigWidth + 2) := by
      zify [hpos, hle, (Nat.two_pow_pos (c.outSigWidth + 2))]
      ring
    rw [roundMaskShifted, bits_zero_right, Nat.shiftLeft_eq, hsplit, Nat.add_mul_mod_self_right,
      Nat.mod_eq_of_lt (by omega)]
  omega

theorem sigUnrounded_eq : sigUnrounded c x =
    x.significand / 2 ^ (guardPlace c x + 1) * 2 ^ roundPosition c x +
      (2 ^ roundPosition c x - 1) := by
  have hlt := c.sig_lt
  have htop : bits (sigIn c x) (c.inSigWidth - 1) (c.inSigWidth - c.outSigWidth) =
      sigIn c x / 2 ^ (c.inSigWidth - c.outSigWidth) := by
    refine bits_of_lt ?_
    rw [Nat.sub_add_cancel (by omega)]
    exact sigIn_lt
  have hlead : cat 1 c.outSigWidth (sigIn c x / 2 ^ (c.inSigWidth - c.outSigWidth)) =
      x.significand / 2 ^ (c.inSigWidth - c.outSigWidth) := by
    rw [significand_div (Nat.sub_le _ _), Nat.sub_sub_self (by omega), cat, Nat.one_mul]
  rw [sigUnrounded, htop, hlead, not_roundMaskShifted, or_ones, Nat.div_div_eq_div_mul, ← pow_add,
    guardPlace_succ]

theorem significand_bounds : 2 ^ c.inSigWidth ≤ x.significand ∧
    x.significand < 2 ^ (c.inSigWidth + 1) := by
  have hlt := sigIn_lt (c := c) (x := x)
  refine ⟨Nat.le_add_right _ _, ?_⟩
  rw [pow_succ, Nat.mul_two]
  exact Nat.add_lt_add_left hlt _

/-- What is kept of the significand, and the ones below, have a leading one in its place. -/
theorem sigUnrounded_lt : sigUnrounded c x < 2 ^ (c.outSigWidth + 1) := by
  have hpos := Nat.two_pow_pos (roundPosition c x)
  have hlt := c.sig_lt
  have hkept : x.significand / 2 ^ (guardPlace c x + 1) <
      2 ^ (c.outSigWidth + 1 - roundPosition c x) := by
    have hle := roundPosition_le (c := c) (x := x)
    rw [Nat.div_lt_iff_lt_mul (Nat.two_pow_pos _), ← pow_add, guardPlace_succ,
      show c.outSigWidth + 1 - roundPosition c x +
        (c.inSigWidth - c.outSigWidth + roundPosition c x) = c.inSigWidth + 1 by omega]
    exact significand_bounds.2
  have hscale : 2 ^ (c.outSigWidth + 1) =
      2 ^ (c.outSigWidth + 1 - roundPosition c x) * 2 ^ roundPosition c x := by
    rw [← pow_add, Nat.sub_add_cancel roundPosition_le]
  rw [sigUnrounded_eq, hscale]
  have hstep := Nat.mul_le_mul_right (2 ^ roundPosition c x) hkept
  rw [Nat.succ_mul] at hstep
  omega

/-- **The significand that is delivered.** Rounded up, it has zeros below the position; otherwise
the ones stay. -/
theorem sigRounded_eq (h : isSpecial c x = false) : sigRounded c x roundingMode =
    rounded c x roundingMode * 2 ^ roundPosition c x +
      if round c x roundingMode then 0 else 2 ^ roundPosition c x - 1 := by
  have hpos := Nat.two_pow_pos (roundPosition c x)
  have hlt := sigUnrounded_lt (c := c) (x := x)
  have htop : 2 ^ (c.outSigWidth + 2) = 2 ^ (c.outSigWidth + 1) * 2 := pow_succ ..
  rw [sigRounded, rounded, RoundingMode.roundShift, ← round_eq h]
  cases hr : round c x roundingMode with
  | true =>
    rw [if_pos rfl, if_pos rfl, Nat.mod_eq_of_lt (by omega), sigUnrounded_eq, Bool.toNat_true,
      Nat.succ_mul]
    omega
  | false =>
    rw [if_neg (by simp), if_neg (by simp), Bool.toNat_false,
      Nat.add_zero, sigUnrounded_eq]

theorem sigRounded_le : sigRounded c x roundingMode ≤ 2 ^ (c.outSigWidth + 1) := by
  have hlt := sigUnrounded_lt (c := c) (x := x)
  rw [sigRounded]
  split
  · exact (Nat.mod_le _ _).trans hlt
  · exact hlt.le

theorem le_sigRounded : 2 ^ c.outSigWidth ≤ sigRounded c x roundingMode := by
  have hlow : 2 ^ c.outSigWidth ≤ sigUnrounded c x := by
    refine le_trans ?_ Nat.left_le_or
    rw [cat, Nat.one_mul]
    exact Nat.le_add_right _ _
  have hlt := sigUnrounded_lt (c := c) (x := x)
  have htop : 2 ^ (c.outSigWidth + 2) = 2 ^ (c.outSigWidth + 1) * 2 := pow_succ ..
  rw [sigRounded]
  split
  · rw [Nat.mod_eq_of_lt (by omega)]
    exact hlow.trans (Nat.le_succ _)
  · exact hlow

theorem testBit_sigRounded :
    (sigRounded c x roundingMode).testBit (c.outSigWidth + 1) =
      decide (sigRounded c x roundingMode = 2 ^ (c.outSigWidth + 1)) := by
  rcases sigRounded_le.lt_or_eq with hlt | heq
  · rw [Nat.testBit_lt_two_pow hlt, decide_eq_false hlt.ne]
  · rw [heq, Nat.testBit_two_pow_self, decide_eq_true rfl]

/-! ### The number that is delivered -/

theorem expUnrounded_eq (hlo : depth c x ≤ c.outSigWidth + 1) (hhi : expIn c x ≤ maxExp c) :
    expUnrounded c x = expIn c x + 4 * unit c - bias c := by
  have hpos := unit_pos c
  have hsig := outSig_le_unit c
  obtain ⟨n, hn⟩ := bias_eq c
  obtain ⟨-, hfour, height⟩ := outExp_units c
  have hwidth : 0 < c.outExpWidth := lt_of_lt_of_le (by omega) c.three_le
  rw [depth_eq] at hlo
  rw [maxExp_eq] at hhi
  rw [Nat.mul_succ] at hn
  rw [expUnrounded, bits_low hwidth, hfour, height, Nat.mod_add_mod]
  have hsplit : expIn c x + 4 * unit c =
      expIn c x + 4 * unit c - bias c + 8 * unit c * (n + 1) := by
    rw [Nat.mul_succ]
    omega
  rw [hsplit, Nat.add_mul_mod_self_left, Nat.mod_eq_of_lt (by omega), Nat.mul_succ]
  omega

theorem out_exp (roundingMode : RoundingMode) (h : expOut c x roundingMode < 8 * unit c) :
    (out c x roundingMode).exp.toNat = expOut c x roundingMode := by
  rw [out, BitVec.toNat_ofNat, (outExp_units c).2.2, Nat.mod_eq_of_lt h]

theorem out_sig (roundingMode : RoundingMode) :
    (out c x roundingMode).sig.toNat = sigOut c x roundingMode % 2 ^ c.outSigWidth := by
  rw [out, BitVec.toNat_ofNat]

theorem out_val (roundingMode : RoundingMode) {e s : ℕ} (hexp : expOut c x roundingMode = e)
    (hsig : sigOut c x roundingMode = s) (hs : s < 2 ^ c.outSigWidth) (hlo : unit c ≤ e)
    (hhi : e < 6 * unit c) : (out c x roundingMode).val =
      .finite x.sign
        ((2 ^ c.outSigWidth + s : ℕ) * 2 ^ ((e : ℤ) - 4 * unit c - c.outSigWidth)) := by
  have he : (out c x roundingMode).exp.toNat = e := by
    rw [out_exp _ (by omega), hexp]
  have hs' : (out c x roundingMode).sig.toNat = s := by
    rw [out_sig, hsig, Nat.mod_eq_of_lt hs]
  have hbias : (2 : ℤ) ^ (c.outExpWidth - 1) = 4 * unit c := by
    exact_mod_cast (outExp_units c).2.1
  rw [RecFloat.val_of_code c.three_le (by rwa [he]) (by rwa [he]), RecFloat.mag,
    RecFloat.significand, he, hs', hbias]
  rfl

/-- The exponent is the one of the number, or the next one if the significand is carried. -/
theorem expRounded_eq (hlo : depth c x ≤ c.outSigWidth + 1) (hhi : expIn c x ≤ maxExp c) :
    expRounded c x roundingMode = expIn c x + 4 * unit c - bias c +
      if sigRounded c x roundingMode = 2 ^ (c.outSigWidth + 1) then 1 else 0 := by
  have hpos := unit_pos c
  have hmax := maxExp_eq c
  rw [expRounded, testBit_sigRounded, expUnrounded_eq hlo hhi, (outExp_units c).2.2,
    Nat.mod_eq_of_lt (by omega)]
  by_cases hcarry : sigRounded c x roundingMode = 2 ^ (c.outSigWidth + 1)
  · rw [if_pos (decide_eq_true hcarry), if_pos hcarry]
  · rw [if_neg (by rwa [decide_eq_true_iff]), if_neg hcarry, Nat.add_zero]

theorem isOverflow_of_le (h : expIn c x ≤ maxExp c) : isOverflow c x = false := by
  rw [isOverflow, decide_eq_false (Nat.not_lt.mpr h), Bool.false_and]

theorem isUnderflow_of_le (h : depth c x ≤ c.outSigWidth + 1) : isUnderflow c x = false := by
  rw [← Nat.not_lt, ← lt_minExp_iff] at h
  rw [isUnderflow, decide_eq_false h, Bool.false_and]

theorem exc_flags (hspecial : isSpecial c x = false) (hlo : depth c x ≤ c.outSigWidth + 1)
    (hhi : expIn c x ≤ maxExp c) :
    (exc c x roundingMode).overflow =
        decide (expIn c x = maxExp c ∧ sigRounded c x roundingMode = 2 ^ (c.outSigWidth + 1)) ∧
      (exc c x roundingMode).inexact =
        decide (x.significand % 2 ^ (guardPlace c x + 1) ≠ 0) := by
  have hover := isOverflow_of_le hhi
  have hunder := isUnderflow_of_le hlo
  refine ⟨?_, ?_⟩
  · rw [exc, flagOverflow, hover, testBit_sigRounded, Bool.false_or, Bool.decide_and]
  · rw [exc, hover, hunder, Bool.or_false, Bool.or_false, roundInexact_eq hspecial]

/-- **The number that is delivered is the significand at the exponent of the operand.** -/
theorem out_of_sigRounded (hspecial : isSpecial c x = false) (hlo : depth c x ≤ c.outSigWidth + 1)
    (hhi : expIn c x ≤ maxExp c) (hcode : unit c ≤ expRounded c x roundingMode)
    (hcode' : expRounded c x roundingMode < 6 * unit c) : (out c x roundingMode).val =
      .finite x.sign (sigRounded c x roundingMode *
        2 ^ ((expIn c x : ℤ) - bias c - c.outSigWidth)) := by
  have hover := isOverflow_of_le hhi
  have hunder := isUnderflow_of_le hlo
  have hexp : expOut c x roundingMode = expRounded c x roundingMode := by
    rw [expOut, hspecial, hover, hunder]
    rfl
  have hsig : sigOut c x roundingMode = sigRounded c x roundingMode % 2 ^ c.outSigWidth := by
    rw [sigOut, hspecial, hover, hunder, if_neg (by simp), if_neg (by simp),
      if_neg (by simp), bits_low c.outSig_pos]
  have hle := le_bias c
  have hpos := unit_pos c
  have hout := outSig_le_unit c
  have hbias : (2 : ℤ) ^ (c.outExpWidth - 1) = 4 * unit c := by
    exact_mod_cast (outExp_units c).2.1
  have hexp' : (out c x roundingMode).exp.toNat = expRounded c x roundingMode := by
    rw [out_exp _ (by omega), hexp]
  have hsig' : (out c x roundingMode).sig.toNat =
      sigRounded c x roundingMode % 2 ^ c.outSigWidth := by
    rw [out_sig, hsig, Nat.mod_mod]
  have hval := RecFloat.val_of_rounded c.three_le le_sigRounded sigRounded_le hsig'
    (hexp'.trans (expRounded_eq hlo hhi)) (by rwa [hexp']) (by rwa [hexp'])
  rw [depth_eq] at hlo
  rw [hval, hbias]
  refine congrArg (FloatDatum.finite x.sign) ?_
  congr 2
  omega

end Narrow

end RiscvSoc
