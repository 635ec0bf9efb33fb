import RiscvSoc.Hardfloat.Recoded

/-!
# Into the recoded format and out of it

`floatNToRecodedFloatN` and `recodedFloatNToFloatN`. The exponent field of a float has one bit less
than that of a recoded number. A subnormal float is normalized on its way in: its leading one
becomes the hidden one, and zeros come in from the right. On its way out a number in the subnormal
range is shifted back, which is exact if those zeros are still there.

Out of a zero or an infinity comes a zero or an infinity, whatever the other bits of the recoded
number are.
-/

namespace RiscvSoc

open Bits

/-! ### Floats -/

/-- Widths that the conversions can be built for. -/
structure RecodeConf where
  sigWidth : ℕ
  /-- One more than the width of the exponent of a float. -/
  expWidth : ℕ
  sig_pos : 0 < sigWidth
  /-- `norm(normWidth-2, normWidth-sigWidth-1)` ends at a bit. -/
  sig_lt : sigWidth < 2 ^ log2Up sigWidth
  /-- `UInt(1 << expWidth-2) | UInt(2)` has two ones. -/
  four_le : 4 ≤ expWidth
  /-- The bits that a shift distance is read from are below the code. -/
  log_le : log2Up sigWidth + 2 ≤ expWidth

/-- A format: there is room for the exponents of the subnormal numbers. -/
structure FloatConf extends RecodeConf where
  /-- The smallest subnormal number does not have the code of zero. -/
  sig_le : sigWidth ≤ 2 ^ (expWidth - 3) + 2

/-- A float: its sign, its exponent and its fraction. -/
@[ext]
structure FloatN (sigWidth expWidth : ℕ) where
  sign : Bool
  exp : BitVec (expWidth - 1)
  fract : BitVec sigWidth
  deriving DecidableEq

/-- What a float stands for. -/
def FloatN.val {sigWidth expWidth : ℕ} (x : FloatN sigWidth expWidth) : FloatDatum :=
  if x.exp.toNat = 2 ^ (expWidth - 1) - 1 then
    if x.fract.toNat = 0 then .inf x.sign else .nan
  else if x.exp.toNat = 0 then
    .finite x.sign (x.fract.toNat * 2 ^ ((2 : ℤ) - 2 ^ (expWidth - 2) - sigWidth))
  else
    .finite x.sign ((2 ^ sigWidth + x.fract.toNat : ℕ) *
      2 ^ ((x.exp.toNat : ℤ) + 1 - 2 ^ (expWidth - 2) - sigWidth))

/-! ### The conversions -/

/-- `Log2`, and the complement of it: how far a word of a power of two of bits is shifted. -/
def Normalize.shift (logWidth x : ℕ) : ℕ := 2 ^ logWidth - 1 - msb x

variable {sigWidth expWidth : ℕ}

namespace FloatToRecoded

variable (x : FloatN sigWidth expWidth)

def expIn : ℕ := x.exp.toNat

def fractIn : ℕ := x.fract.toNat

def normWidth (sigWidth : ℕ) : ℕ := 2 ^ log2Up sigWidth

def isZeroExpIn : Bool := decide (expIn x = 0)

def isZeroFractIn : Bool := decide (fractIn x = 0)

def isZero : Bool := isZeroExpIn x && isZeroFractIn x

def isSubnormal : Bool := isZeroExpIn x && !isZeroFractIn x

def normIn : ℕ := fractIn x <<< (normWidth sigWidth - sigWidth)

def normCount : ℕ := Normalize.shift (log2Up sigWidth) (normIn x)

def norm : ℕ := normIn x <<< normCount x

def subnormalExpOut : ℕ :=
  cat (2 ^ (expWidth - log2Up sigWidth) - 1) (log2Up sigWidth)
    (2 ^ log2Up sigWidth - 1 - normCount x)

def normalizedFract : ℕ :=
  bits (norm x) (normWidth sigWidth - 2) (normWidth sigWidth - sigWidth - 1)

def commonExp : ℕ :=
  if isZeroExpIn x then if isZeroFractIn x then 0 else subnormalExpOut x else expIn x

def expAdjust : ℕ :=
  if isZero x then 0 else 2 ^ (expWidth - 2) ||| if isSubnormal x then 2 else 1

def adjustedCommonExp : ℕ := (commonExp x + expAdjust x) % 2 ^ expWidth

def isNaN : Bool :=
  decide (bits (adjustedCommonExp x) (expWidth - 1) (expWidth - 2) = 3) &&
    !isZeroFractIn x

def expOut : ℕ := adjustedCommonExp x ||| (isNaN x).toNat <<< (expWidth - 3)

def fractOut : ℕ := if isZeroExpIn x then normalizedFract x else fractIn x

end FloatToRecoded

def floatNToRecodedFloatN (x : FloatN sigWidth expWidth) : RecFloat sigWidth expWidth where
  sign := x.sign
  exp := BitVec.ofNat _ (FloatToRecoded.expOut x)
  sig := BitVec.ofNat _ (FloatToRecoded.fractOut x)

namespace RecodedToFloat

variable (x : RecFloat sigWidth expWidth)

def expIn : ℕ := x.exp.toNat

def fractIn : ℕ := x.sig.toNat

def isHighSubnormalIn : Bool := decide (bits (expIn x) (expWidth - 3) 0 < 2)

def isSubnormal : Bool :=
  decide (x.expCode = 1) ||
    decide (bits (expIn x) (expWidth - 1) (expWidth - 2) = 1) && isHighSubnormalIn x

def isNormal : Bool :=
  decide (bits (expIn x) (expWidth - 1) (expWidth - 2) = 1) && !isHighSubnormalIn x ||
    decide (bits (expIn x) (expWidth - 1) (expWidth - 2) = 2)

def isSpecial : Bool := decide (bits (expIn x) (expWidth - 1) (expWidth - 2) = 3)

def isNaN : Bool := isSpecial x && (expIn x).testBit (expWidth - 3)

/-- The difference has two bits at least. -/
def denormShiftDist : ℕ :=
  (2 + 2 ^ max 2 (log2Up sigWidth) - bits (expIn x) (log2Up sigWidth - 1) 0) %
    2 ^ max 2 (log2Up sigWidth)

def subnormalFractOut : ℕ :=
  bits (cat 1 sigWidth (fractIn x) >>> denormShiftDist x) (sigWidth - 1) 0

def normalExpOut : ℕ :=
  (bits (expIn x) (expWidth - 2) 0 + 2 ^ (expWidth - 1) - (2 ^ (expWidth - 2) + 1)) %
    2 ^ (expWidth - 1)

def expOut : ℕ :=
  if isNormal x then normalExpOut x
  else if isSpecial x then 2 ^ (expWidth - 1) - 1 else 0

def fractOut : ℕ :=
  if isNormal x || isNaN x then fractIn x
  else if isSubnormal x then subnormalFractOut x else 0

end RecodedToFloat

def recodedFloatNToFloatN (x : RecFloat sigWidth expWidth) : FloatN sigWidth expWidth where
  sign := x.sign
  exp := BitVec.ofNat _ (RecodedToFloat.expOut x)
  fract := BitVec.ofNat _ (RecodedToFloat.fractOut x)

/-! ### What comes in -/

namespace RecodeConf

variable {f : RecodeConf}

variable (f) in
/-- The unit of the exponent code. -/
def unit : ℕ := 2 ^ (f.expWidth - 3)

theorem three_le : 3 ≤ f.expWidth := (by decide : 3 ≤ 4).trans f.four_le

theorem two_le_unit : 2 ≤ f.unit := by
  have hfour := f.four_le
  calc 2 = 2 ^ 1 := rfl
    _ ≤ f.unit := Nat.pow_le_pow_right two_pos (by omega)

theorem units : 2 ^ (f.expWidth - 2) = 2 * f.unit ∧
    2 ^ (f.expWidth - 1) = 4 * f.unit ∧ 2 ^ f.expWidth = 8 * f.unit :=
  RecFloat.two_pow_expWidth three_le

theorem sig_lt_two_unit : f.sigWidth < 2 * f.unit := by
  have hlog := f.log_le
  rw [← (units (f := f)).1]
  exact f.sig_lt.trans_le (Nat.pow_le_pow_right two_pos (by omega))

end RecodeConf

namespace FloatToRecoded

variable {f : RecodeConf} {x : FloatN f.sigWidth f.expWidth}

open RecodeConf

theorem fractIn_lt : fractIn x < 2 ^ f.sigWidth := x.fract.isLt

theorem expIn_lt : expIn x < 4 * f.unit := by
  rw [← (units (f := f)).2.1]
  exact x.exp.isLt

/-- A subnormal float is shifted until its leading one is in front. -/
theorem normCount_eq (h : fractIn x ≠ 0) : normCount x = f.sigWidth - 1 - msb (fractIn x) := by
  have hmsb := msb_lt f.sig_pos (fractIn_lt (x := x))
  have hwidth : f.sigWidth < normWidth f.sigWidth := f.sig_lt
  have hlog : msb (normIn x) = msb (fractIn x) + (normWidth f.sigWidth - f.sigWidth) := by
    rw [normIn, Nat.shiftLeft_eq, msb_mul_two_pow h]
  rw [normCount, Normalize.shift, hlog, ← normWidth]
  omega

theorem normalizedFract_eq (h : fractIn x ≠ 0) : normalizedFract x =
    fractIn x * 2 ^ (f.sigWidth - msb (fractIn x)) % 2 ^ f.sigWidth := by
  have hmsb := msb_lt f.sig_pos (fractIn_lt (x := x))
  have hwidth : f.sigWidth < normWidth f.sigWidth := f.sig_lt
  have hnorm : norm x = fractIn x * 2 ^ (f.sigWidth - msb (fractIn x)) *
      2 ^ (normWidth f.sigWidth - f.sigWidth - 1) := by
    rw [norm, normCount_eq h, normIn, Nat.shiftLeft_eq, Nat.shiftLeft_eq, Nat.mul_assoc,
      Nat.mul_assoc, ← pow_add, ← pow_add]
    congr 2
    omega
  rw [normalizedFract, bits, hnorm, Nat.mul_div_cancel _ (Nat.two_pow_pos _)]
  congr 2
  omega

theorem subnormalExpOut_eq (h : fractIn x ≠ 0) :
    subnormalExpOut x = 8 * f.unit - f.sigWidth + msb (fractIn x) := by
  have hmsb := msb_lt f.sig_pos (fractIn_lt (x := x))
  have hwidth : f.sigWidth < 2 ^ log2Up f.sigWidth := f.sig_lt
  have hlog := f.log_le
  have hpow : 2 ^ (f.expWidth - log2Up f.sigWidth) * 2 ^ log2Up f.sigWidth = 8 * f.unit := by
    rw [← pow_add, Nat.sub_add_cancel (by omega), units.2.2]
  have hle : 2 ^ log2Up f.sigWidth ≤ 8 * f.unit := by
    rw [← hpow]
    exact Nat.le_mul_of_pos_left _ (Nat.two_pow_pos _)
  rw [subnormalExpOut, normCount_eq h, cat, Nat.sub_mul, hpow, Nat.one_mul]
  omega

theorem expAdjust_eq (h : isZero x = false) :
    expAdjust x = 2 * f.unit + if isSubnormal x then 2 else 1 := by
  have htwo := two_le_unit (f := f)
  have hlt : (if isSubnormal x = true then 2 else 1) < 2 ^ (f.expWidth - 2) := by
    rw [units.1]
    split <;> omega
  rw [expAdjust, h, if_neg (by simp), ← units.1]
  have hor := (Nat.two_pow_add_eq_or_of_lt hlt 1).symm
  rwa [Nat.mul_one] at hor

/-- The exponent of a subnormal float counts from the smallest one. -/
theorem adjustedCommonExp_of_isSubnormal (h : isSubnormal x = true) :
    adjustedCommonExp x = 2 * f.unit + 2 - f.sigWidth + msb (fractIn x) := by
  have hsub := h
  rw [isSubnormal, Bool.and_eq_true, Bool.not_eq_true'] at h
  obtain ⟨hexp, hfract⟩ := h
  have hne : fractIn x ≠ 0 := of_decide_eq_false hfract
  have hmsb := msb_lt f.sig_pos (fractIn_lt (x := x))
  have hzero : isZero x = false := by
    rw [isZero, hfract, Bool.and_false]
  have htwo := two_le_unit (f := f)
  have hsig := sig_lt_two_unit (f := f)
  rw [adjustedCommonExp, commonExp, hexp, hfract, if_pos rfl, if_neg (by simp),
    expAdjust_eq hzero, hsub, if_pos rfl, subnormalExpOut_eq hne, units.2.2,
    show 8 * f.unit - f.sigWidth + msb (fractIn x) + (2 * f.unit + 2) =
      2 * f.unit + 2 - f.sigWidth + msb (fractIn x) + 8 * f.unit by omega, Nat.add_mod_right,
    Nat.mod_eq_of_lt (by omega)]

theorem adjustedCommonExp_of_expIn (h : isZeroExpIn x = false) :
    adjustedCommonExp x = expIn x + 2 * f.unit + 1 := by
  have hlt := expIn_lt (x := x)
  have htwo := two_le_unit (f := f)
  have hzero : isZero x = false := by
    rw [isZero, h, Bool.false_and]
  have hsub : isSubnormal x = false := by
    rw [isSubnormal, h, Bool.false_and]
  rw [adjustedCommonExp, commonExp, h, if_neg (by simp), expAdjust_eq hzero, hsub,
    if_neg (by simp), units.2.2, Nat.mod_eq_of_lt (by omega)]
  omega

end FloatToRecoded

section Recoded

open RecodeConf FloatToRecoded

variable {f : RecodeConf} {x : FloatN f.sigWidth f.expWidth}

theorem recoded_exp (h : FloatToRecoded.expOut x < 8 * f.unit) :
    (floatNToRecodedFloatN x).exp.toNat = FloatToRecoded.expOut x := by
  rw [floatNToRecodedFloatN, BitVec.toNat_ofNat, units.2.2, Nat.mod_eq_of_lt h]

theorem recoded_sig :
    (floatNToRecodedFloatN x).sig.toNat = FloatToRecoded.fractOut x % 2 ^ f.sigWidth := by
  rw [floatNToRecodedFloatN, BitVec.toNat_ofNat]

theorem expOut_of_lt (h : adjustedCommonExp x < 6 * f.unit) :
    FloatToRecoded.expOut x = adjustedCommonExp x := by
  have hnan : FloatToRecoded.isNaN x = false := by
    have hunits := (units (f := f)).1
    have hfour := f.four_le
    have htop : adjustedCommonExp x < 2 ^ (f.expWidth - 1 + 1) := by
      rw [Nat.sub_add_cancel (by omega), units.2.2]
      omega
    rw [FloatToRecoded.isNaN, bits_of_lt htop, hunits,
      decide_eq_false (Nat.div_lt_of_lt_mul (by omega)).ne, Bool.false_and]
  rw [FloatToRecoded.expOut, hnan, Bool.toNat_false, Nat.zero_shiftLeft, Nat.or_zero]

theorem recoded_of_isZero (hexp : x.exp.toNat = 0) (hfract : x.fract.toNat = 0) :
    (floatNToRecodedFloatN x).exp.toNat = 0 ∧ (floatNToRecodedFloatN x).sig.toNat = 0 := by
  have hzero : isZeroExpIn x = true := decide_eq_true hexp
  have hzero' : isZeroFractIn x = true := decide_eq_true hfract
  have htwo := two_le_unit (f := f)
  have hadjusted : adjustedCommonExp x = 0 := by
    rw [adjustedCommonExp, commonExp, hzero, hzero', if_pos rfl, if_pos rfl, expAdjust,
      FloatToRecoded.isZero, hzero, hzero']
    exact Nat.zero_mod _
  have hexp' := expOut_of_lt (x := x) (by omega)
  refine ⟨?_, ?_⟩
  · rw [recoded_exp (by omega), hexp', hadjusted]
  · have hin : normIn x = 0 := by
      rw [normIn, FloatToRecoded.fractIn, hfract, Nat.zero_shiftLeft]
    rw [recoded_sig, FloatToRecoded.fractOut, hzero, if_pos rfl, normalizedFract,
      FloatToRecoded.norm, hin, Nat.zero_shiftLeft, bits, Nat.zero_div, Nat.zero_mod, Nat.zero_mod]

/-- A subnormal float: its leading one becomes the hidden one. -/
theorem recoded_of_isSubnormal (hexp : x.exp.toNat = 0) (hfract : x.fract.toNat ≠ 0) :
    (floatNToRecodedFloatN x).exp.toNat =
        2 * f.unit + 2 - f.sigWidth + msb x.fract.toNat ∧
      (floatNToRecodedFloatN x).significand =
        x.fract.toNat * 2 ^ (f.sigWidth - msb x.fract.toNat) := by
  have hzero : isZeroExpIn x = true := decide_eq_true hexp
  have hsub : FloatToRecoded.isSubnormal x = true := by
    rw [FloatToRecoded.isSubnormal, hzero, isZeroFractIn, FloatToRecoded.fractIn,
      decide_eq_false hfract]
    rfl
  have htwo := two_le_unit (f := f)
  have hsig := sig_lt_two_unit (f := f)
  have hmsb : msb x.fract.toNat < f.sigWidth := msb_lt f.sig_pos x.fract.isLt
  have hadjusted : adjustedCommonExp x = _ := adjustedCommonExp_of_isSubnormal hsub
  rw [FloatToRecoded.fractIn] at hadjusted
  have hexp' := expOut_of_lt (x := x) (by omega)
  refine ⟨by rw [recoded_exp (by omega), hexp', hadjusted], ?_⟩
  have hlow : 2 ^ f.sigWidth ≤ x.fract.toNat * 2 ^ (f.sigWidth - msb x.fract.toNat) := by
    calc 2 ^ f.sigWidth = 2 ^ msb x.fract.toNat * 2 ^ (f.sigWidth - msb x.fract.toNat) := by
          rw [← pow_add, Nat.add_sub_cancel' hmsb.le]
      _ ≤ _ := Nat.mul_le_mul_right _ (two_pow_msb_le hfract)
  have hhigh : x.fract.toNat * 2 ^ (f.sigWidth - msb x.fract.toNat) < 2 * 2 ^ f.sigWidth := by
    calc x.fract.toNat * 2 ^ (f.sigWidth - msb x.fract.toNat)
        < 2 ^ (msb x.fract.toNat + 1) * 2 ^ (f.sigWidth - msb x.fract.toNat) :=
          Nat.mul_lt_mul_of_pos_right (lt_two_pow_msb _) (Nat.two_pow_pos _)
      _ = 2 * 2 ^ f.sigWidth := by
          rw [← pow_add, ← pow_succ']
          congr 1
          omega
  rw [RecFloat.significand, recoded_sig, FloatToRecoded.fractOut, hzero, if_pos rfl,
    normalizedFract_eq hfract, Nat.mod_mod, FloatToRecoded.fractIn, Nat.mod_eq_sub_mod hlow,
    Nat.mod_eq_of_lt (by omega), Nat.add_sub_cancel' hlow]

theorem recoded_of_isNormal (hexp : x.exp.toNat ≠ 0) (htop : x.exp.toNat < 4 * f.unit - 1) :
    (floatNToRecodedFloatN x).exp.toNat = x.exp.toNat + 2 * f.unit + 1 ∧
      (floatNToRecodedFloatN x).sig.toNat = x.fract.toNat := by
  have hzero : isZeroExpIn x = false := decide_eq_false hexp
  have hadjusted : adjustedCommonExp x = _ := adjustedCommonExp_of_expIn hzero
  rw [FloatToRecoded.expIn] at hadjusted
  have hexp' := expOut_of_lt (x := x) (by omega)
  refine ⟨by rw [recoded_exp (by omega), hexp', hadjusted], ?_⟩
  rw [recoded_sig, FloatToRecoded.fractOut, hzero, if_neg (by simp),
    FloatToRecoded.fractIn, Nat.mod_eq_of_lt x.fract.isLt]

theorem recoded_of_isSpecial (htop : x.exp.toNat = 4 * f.unit - 1) :
    (floatNToRecodedFloatN x).exp.toNat =
        (if x.fract.toNat = 0 then 6 * f.unit else 7 * f.unit) ∧
      (floatNToRecodedFloatN x).sig.toNat = x.fract.toNat := by
  have htwo := two_le_unit (f := f)
  have hfour := f.four_le
  have hzero : isZeroExpIn x = false := by
    rw [isZeroExpIn, FloatToRecoded.expIn, htop]
    exact decide_eq_false (by omega)
  have hadjusted : adjustedCommonExp x = _ := adjustedCommonExp_of_expIn hzero
  rw [FloatToRecoded.expIn, htop] at hadjusted
  have hadjusted' : adjustedCommonExp x = 6 * f.unit := by omega
  have hbits : bits (adjustedCommonExp x) (f.expWidth - 1) (f.expWidth - 2) = 3 := by
    have hlt : adjustedCommonExp x < 2 ^ (f.expWidth - 1 + 1) := by
      rw [Nat.sub_add_cancel (by omega), units.2.2]
      omega
    rw [bits_of_lt hlt, units.1, hadjusted', show 6 * f.unit = 3 * (2 * f.unit) by ring,
      Nat.mul_div_cancel _ (by omega)]
  have hout : FloatToRecoded.expOut x = if x.fract.toNat = 0 then 6 * f.unit else 7 * f.unit := by
    rw [FloatToRecoded.expOut, FloatToRecoded.isNaN, hbits, decide_eq_true rfl, Bool.true_and,
      isZeroFractIn, FloatToRecoded.fractIn, hadjusted', Nat.shiftLeft_eq, ← unit]
    by_cases hfract : x.fract.toNat = 0
    · rw [if_pos hfract, decide_eq_true hfract, Bool.not_true, Bool.toNat_false, Nat.zero_mul,
        Nat.or_zero]
    · rw [if_neg hfract, decide_eq_false hfract, Bool.not_false, Bool.toNat_true, Nat.one_mul]
      have hor : 6 * f.unit ||| f.unit = 2 ^ (f.expWidth - 3 + 1) * 3 + f.unit := by
        have hlt : f.unit < 2 ^ (f.expWidth - 3 + 1) := Nat.pow_lt_pow_succ Nat.one_lt_two
        rw [Nat.two_pow_add_eq_or_of_lt hlt, pow_succ, ← unit]
        congr 1
        ring
      rw [hor, pow_succ, ← unit]
      ring
  refine ⟨?_, ?_⟩
  · rw [recoded_exp (by rw [hout]; split <;> omega), hout]
  · rw [recoded_sig, FloatToRecoded.fractOut, hzero, if_neg (by simp),
      FloatToRecoded.fractIn, Nat.mod_eq_of_lt x.fract.isLt]

end Recoded

end RiscvSoc
