import RiscvSoc.Hardfloat.IntToFloat

/-!
# Conversion to integers

`recodedFloatNToAny`. One shifter serves the four types: the significand is shifted left by the
exponent, and what is above the fraction is the integer part. A number below one is not shifted, and
rounding looks at its exponent instead. Whether the integer is too large is read from the exponent,
and at the largest exponent also from the unrounded word.

Four things go wrong. The carry out of an integer of half a word is looked for in the full word, and
never found. The most negative integer is taken for one that is too large. Below one the inexact
flag is read from the fraction, so that a power of two passes for an integer and a zero with a
fraction does not. A negative number that no unsigned type has becomes the largest unsigned integer,
and a NaN with a sign the most negative one.
-/

namespace RiscvSoc

open Bits

/-! ### Conversion -/

namespace IntType

variable (t : IntType)

def isSigned : Bool :=
  match t with
  | .uint32 => false
  | .int32 => true
  | .uint64 => false
  | .int64 => true

/-- The width of a type, in a machine with words of `intWidth` bits. -/
def width (intWidth : ℕ) : ℕ :=
  match t with
  | .uint32 => intWidth / 2
  | .int32 => intWidth / 2
  | .uint64 => intWidth
  | .int64 => intWidth

/-- The smallest integer of a type. -/
def least (intWidth : ℕ) : ℤ := if t.isSigned then -2 ^ (t.width intWidth - 1) else 0

/-- The integers of a type are those below this one. -/
def bound (intWidth : ℕ) : ℕ :=
  if t.isSigned then 2 ^ (t.width intWidth - 1) else 2 ^ t.width intWidth

end IntType

/-- What a conversion to an integer delivers. -/
structure IntResult where
  /-- The pattern, as wide as the type. -/
  word : ℕ
  invalid : Bool
  inexact : Bool
  deriving DecidableEq

/-- An integer with the sign and the magnitude. -/
def signMag (neg : Bool) (n : ℕ) : ℤ := if neg then -n else n

/-- The integer that takes the place of one that is out of range. -/
def IntType.saturated (t : IntType) (intWidth : ℕ) (neg : Bool) : ℤ :=
  if neg then t.least intWidth else t.bound intWidth - 1

/-- Conversion to an integer. A NaN becomes the largest one. -/
def IntType.convert (t : IntType) (intWidth : ℕ) (mode : RoundingMode) : FloatDatum → IntResult
  | .nan => ⟨wrap (t.width intWidth) (t.saturated intWidth false), true, false⟩
  | .inf neg => ⟨wrap (t.width intWidth) (t.saturated intWidth neg), true, false⟩
  | .finite neg mag =>
    let r := signMag neg (mode.roundNat neg mag)
    if t.least intWidth ≤ r ∧ r < t.bound intWidth then
      ⟨wrap (t.width intWidth) r, false, decide ((mode.roundNat neg mag : ℚ) ≠ mag)⟩
    else ⟨wrap (t.width intWidth) (t.saturated intWidth neg), true, false⟩

/-- Which operands the circuit serves. A NaN has no sign if the type has one, and minus infinity is
for signed types only. Below one the fraction is zero for zero and for nothing else. A negative
number that is too small is rounded past the bound of a signed type, or to zero; a positive number
below the bound is not rounded up to it. -/
def IntType.Served (t : IntType) (intWidth : ℕ) (mode : RoundingMode) {sigWidth expWidth : ℕ}
    (x : RecFloat sigWidth expWidth) : Prop :=
  match x.val with
  | .nan => t.isSigned = true → x.sign = false
  | .inf neg => t.isSigned = false → neg = false
  | .finite neg mag =>
    (mag < 1 → (x.sig = 0 ↔ mag = 0)) ∧
      if neg then
        if t.isSigned then t.bound intWidth ≤ mag → mode.roundNat neg mag ≠ t.bound intWidth
        else mode.roundNat neg mag = 0
      else mag < t.bound intWidth → mode.roundNat neg mag < t.bound intWidth

/-! ### The circuit -/

namespace RecodedToAny

variable {sigWidth expWidth : ℕ} (intWidth : ℕ) (x : RecFloat sigWidth expWidth)
  (roundingMode : RoundingMode) (typeOp : IntType)

def isTiny : Bool := !decide (bits x.exp.toNat (expWidth - 2) 0 = 2 ^ (expWidth - 1) - 1)

def isZeroOrOne : Bool := !x.exp.toNat.testBit (expWidth - 1)

def isSpecial : Bool := decide (bits x.exp.toNat (expWidth - 1) (expWidth - 2) = 3)

def roundDist : ℕ :=
  if isZeroOrOne x then 0 else bits x.exp.toNat (min (expWidth - 1) (log2Up intWidth) - 1) 0

def shiftedSig : ℕ := cat (!isZeroOrOne x).toNat sigWidth x.sig.toNat <<< roundDist intWidth x

def unroundedWidth (expWidth : ℕ) : ℕ := min (2 ^ (expWidth - 1)) intWidth

def unrounded : ℕ :=
  bits (shiftedSig intWidth x) (unroundedWidth intWidth expWidth + sigWidth - 1) sigWidth

def roundBits2 : Bool := (shiftedSig intWidth x).testBit sigWidth

def roundBits1 : Bool := (shiftedSig intWidth x).testBit (sigWidth - 1)

def roundBits0 : Bool := decide (bits (shiftedSig intWidth x) (sigWidth - 2) 0 ≠ 0)

def roundInexact : Bool := roundBits1 intWidth x || roundBits0 intWidth x

def roundNearest : Bool :=
  if isZeroOrOne x then !isTiny x && roundInexact intWidth x
  else
    roundBits2 intWidth x && roundBits1 intWidth x ||
      roundBits1 intWidth x && roundBits0 intWidth x

def nonzeroSig : Bool := if isZeroOrOne x then !x.isZero else roundInexact intWidth x

def round : Bool :=
  match roundingMode with
  | .nearestEven => roundNearest intWidth x
  | .min => x.sign && nonzeroSig intWidth x
  | .max => !x.sign && nonzeroSig intWidth x
  | .minMag => false

def onescomp : ℕ :=
  if x.sign then 2 ^ unroundedWidth intWidth expWidth - 1 - unrounded intWidth x
  else unrounded intWidth x

def rounded : ℤ :=
  signed (unroundedWidth intWidth expWidth)
    ((onescomp intWidth x + (round intWidth x roundingMode ^^ x.sign).toNat) %
      2 ^ unroundedWidth intWidth expWidth)

def roundCarry : Bool :=
  round intWidth x roundingMode &&
    decide (unrounded intWidth x = 2 ^ unroundedWidth intWidth expWidth - 1)

def signedOverflowCarry : Bool := !x.sign && roundCarry intWidth x roundingMode

def signedOverflow : Bool :=
  !x.sign || round intWidth x roundingMode || decide (unrounded intWidth x ≠ 0)

def posExponent : ℕ := bits x.exp.toNat (expWidth - 2) 0

/-- `signedInvalid`, for a type of `n` bits. -/
def signedInvalid (n : ℕ) : Bool :=
  if isZeroOrOne x then false
  else if posExponent x = n - 2 then signedOverflowCarry intWidth x roundingMode
  else if posExponent x = n - 1 then signedOverflow intWidth x roundingMode
  else decide (n ≤ posExponent x)

/-- `unsignedInvalid`, for a type of `n` bits. -/
def unsignedInvalid (n : ℕ) : Bool :=
  if isZeroOrOne x then x.sign && round intWidth x roundingMode
  else x.sign ||
    if posExponent x = n - 1 then roundCarry intWidth x roundingMode
    else decide (n ≤ posExponent x)

def invalid : Bool :=
  isSpecial x ||
    match typeOp with
    | .uint32 => unsignedInvalid intWidth x roundingMode (intWidth / 2)
    | .int32 => signedInvalid intWidth x roundingMode (intWidth / 2)
    | .uint64 => unsignedInvalid intWidth x roundingMode intWidth
    | .int64 => signedInvalid intWidth x roundingMode intWidth

def invalidValue : ℤ :=
  match typeOp with
  | .int64 => if x.sign then -2 ^ (intWidth - 1) else 2 ^ (intWidth - 1) - 1
  | .int32 => if x.sign then -2 ^ (intWidth / 2 - 1) else 2 ^ (intWidth / 2 - 1) - 1
  | .uint32 => -1
  | .uint64 => -1

def inexact : Bool := roundInexact intWidth x && !invalid intWidth x roundingMode typeOp

def out : BitVec intWidth :=
  BitVec.ofInt intWidth
    (if invalid intWidth x roundingMode typeOp then invalidValue intWidth x typeOp
    else rounded intWidth x roundingMode)

def exc : ExceptionFlags where
  invalid := invalid intWidth x roundingMode typeOp
  infinite := false
  overflow := false
  underflow := false
  inexact := inexact intWidth x roundingMode typeOp

/-- What a reader of the type finds. -/
def result : IntResult where
  word := (out intWidth x roundingMode typeOp).toNat % 2 ^ typeOp.width intWidth
  invalid := (exc intWidth x roundingMode typeOp).invalid
  inexact := (exc intWidth x roundingMode typeOp).inexact

/-! ### Numbers below one -/

variable {intWidth x roundingMode typeOp} {x : RecFloat 52 12}

theorem isZeroOrOne_eq : isZeroOrOne x = decide (x.exp.toNat < 2 ^ 11) := by
  rw [isZeroOrOne, Bool.not_eq_eq_eq_not, ← decide_not]
  have hlt := x.exp.isLt
  rcases Nat.lt_or_ge x.exp.toNat (2 ^ 11) with hbelow | habove
  · rw [Nat.testBit_lt_two_pow hbelow, decide_eq_false (not_not.mpr hbelow)]
  · rw [decide_eq_true (Nat.not_lt.mpr habove), Nat.testBit_eq_decide_div_mod_eq,
      Nat.div_eq_of_lt_le (k := 1) (by omega) (by omega)]
    rfl

/-- The magnitude of a number that is not zero, by its exponent. -/
theorem mag_bounds : (2 : ℚ) ^ ((x.exp.toNat : ℤ) - 2 ^ 11) ≤ x.mag ∧
    x.mag < 2 ^ ((x.exp.toNat : ℤ) - 2 ^ 11 + 1) := by
  have hscale : (0 : ℚ) < 2 ^ ((x.exp.toNat : ℤ) - 2 ^ (12 - 1) - (52 : ℕ)) := zpow_pos two_pos _
  have hlo : ((2 ^ 52 : ℕ) : ℚ) ≤ x.significand := Nat.cast_le.mpr (Nat.le_add_right ..)
  have hhi : (x.significand : ℚ) < (2 ^ 53 : ℕ) := by
    rw [Nat.cast_lt, RecFloat.significand]
    have hsig := x.sig.isLt
    omega
  refine ⟨?_, ?_⟩
  · calc (2 : ℚ) ^ ((x.exp.toNat : ℤ) - 2 ^ 11)
        = (2 ^ 52 : ℕ) * 2 ^ ((x.exp.toNat : ℤ) - 2 ^ (12 - 1) - (52 : ℕ)) := by
          rw [Nat.cast_pow, Nat.cast_ofNat, ← zpow_natCast, ← zpow_add₀ two_ne_zero]
          congr 1
          ring
      _ ≤ x.mag := mul_le_mul_of_nonneg_right hlo hscale.le
  · calc x.mag < (2 ^ 53 : ℕ) * 2 ^ ((x.exp.toNat : ℤ) - 2 ^ (12 - 1) - (52 : ℕ)) :=
          mul_lt_mul_of_pos_right hhi hscale
      _ = 2 ^ ((x.exp.toNat : ℤ) - 2 ^ 11 + 1) := by
          rw [Nat.cast_pow, Nat.cast_ofNat, ← zpow_natCast, ← zpow_add₀ two_ne_zero]
          congr 1
          push_cast
          ring

/-- Below one nothing is shifted, and the integer part is zero. -/
theorem shiftedSig_of_lt (h : x.exp.toNat < 2 ^ 11) : shiftedSig 64 x = x.sig.toNat := by
  rw [shiftedSig, roundDist, isZeroOrOne_eq, decide_eq_true h, if_pos rfl, Nat.shiftLeft_zero, cat]
  simp

theorem unrounded_of_lt (h : x.exp.toNat < 2 ^ 11) : unrounded 64 x = 0 := by
  have hsig := x.sig.isLt
  rw [unrounded, shiftedSig_of_lt h, bits, Nat.div_eq_of_lt hsig, Nat.zero_mod]

theorem roundInexact_eq : roundInexact 64 x = decide (shiftedSig 64 x % 2 ^ 52 ≠ 0) := by
  have hbits := RoundingMode.mod_two_pow_succ_eq (shiftedSig 64 x) 51
  rw [roundInexact, roundBits1, roundBits0, bits_zero_right, hbits]
  cases (shiftedSig 64 x).testBit 51 <;> simp

section

variable (h : x.exp.toNat < 2 ^ 11)
include h

theorem roundInexact_of_lt :
    roundInexact 64 x = decide (x.sig ≠ 0) := by
  rw [roundInexact_eq, shiftedSig_of_lt h, Nat.mod_eq_of_lt x.sig.isLt]
  refine decide_eq_decide.mpr (not_congr ?_)
  rw [← BitVec.toNat_inj]
  rfl

theorem isTiny_eq : isTiny x = !decide (x.exp.toNat = 2 ^ 11 - 1) := by
  rw [isTiny, bits_zero_right, Nat.mod_eq_of_lt h]

theorem mag_lt_one : 0 < x.mag ∧ x.mag < 1 := by
  obtain ⟨hlo, hhi⟩ := mag_bounds (x := x)
  refine ⟨(zpow_pos two_pos _).trans_le hlo, hhi.trans_le ?_⟩
  exact zpow_le_one_of_nonpos₀ one_le_two (by omega)

theorem half_lt_mag_iff :
    1 / 2 < x.mag ↔ x.exp.toNat = 2 ^ 11 - 1 ∧ x.sig ≠ 0 := by
  rcases Nat.lt_or_ge x.exp.toNat (2 ^ 11 - 1) with hlt | hge
  · refine iff_of_false ?_ (fun hand => hlt.ne hand.1)
    rw [not_lt]
    calc x.mag ≤ 2 ^ ((x.exp.toNat : ℤ) - 2 ^ 11 + 1) := mag_bounds.2.le
      _ ≤ 2 ^ (-1 : ℤ) := zpow_le_zpow_right₀ one_le_two (by omega)
      _ = 1 / 2 := by norm_num
  · have hexp : x.exp.toNat = 2 ^ 11 - 1 := by omega
    have hmag : x.mag = x.significand / 2 ^ 53 := by
      rw [RecFloat.mag, hexp, div_eq_mul_inv, ← zpow_natCast, ← zpow_neg]
      rfl
    have hsig : x.sig ≠ 0 ↔ x.sig.toNat ≠ 0 := by
      rw [ne_eq, ← BitVec.toNat_inj]
      rfl
    rw [and_iff_right hexp, hmag, hsig, RecFloat.significand,
      show (1 / 2 : ℚ) = (2 ^ 52 : ℕ) / 2 ^ 53 by norm_num,
      div_lt_div_iff_of_pos_right (by positivity), Nat.cast_lt]
    omega

theorem nonzeroSig_of_lt : nonzeroSig 64 x = !x.isZero := by
  rw [nonzeroSig, isZeroOrOne_eq, decide_eq_true h, if_pos rfl]

theorem roundNat_of_lt (roundingMode : RoundingMode) :
    roundingMode.roundNat x.sign (if x.isZero then 0 else x.mag) =
      (round 64 x roundingMode).toNat := by
  have hnearest : roundNearest 64 x = decide (1 / 2 < x.mag) := by
    rw [roundNearest, isZeroOrOne_eq, decide_eq_true h, if_pos rfl, isTiny_eq h, Bool.not_not,
      roundInexact_of_lt h, ← Bool.decide_and]
    exact (decide_eq_decide.mpr (half_lt_mag_iff h)).symm
  cases hzero : x.isZero with
  | true =>
    have hnone : round 64 x roundingMode = false := by
      have hexp := (RecFloat.isZero_iff (by omega)).mp hzero
      cases roundingMode with
      | nearestEven =>
        rw [round, hnearest, decide_eq_false]
        rw [half_lt_mag_iff h]
        omega
      | minMag => rfl
      | min => rw [round, nonzeroSig_of_lt h, hzero, Bool.not_true, Bool.and_false]
      | max => rw [round, nonzeroSig_of_lt h, hzero, Bool.not_true, Bool.and_false]
    rw [if_pos rfl, RoundingMode.roundNat_zero, hnone]
    rfl
  | false =>
    obtain ⟨hpos, hlt⟩ := mag_lt_one h
    rw [if_neg (by simp), RoundingMode.roundNat_of_lt_one hpos hlt]
    congr 1
    cases roundingMode with
    | nearestEven => exact hnearest.symm
    | minMag => rfl
    | min => rw [round, nonzeroSig_of_lt h, hzero, Bool.not_false, Bool.and_true]
    | max => rw [round, nonzeroSig_of_lt h, hzero, Bool.not_false, Bool.and_true]

end

/-! ### Numbers that are shifted -/

section

variable (hlo : 2 ^ 11 ≤ x.exp.toNat) (hhi : x.exp.toNat < 2 ^ 11 + 64)
include hlo hhi

theorem shiftedSig_of_ge :
    shiftedSig 64 x = x.significand * 2 ^ (x.exp.toNat - 2 ^ 11) := by
  have hdist : min (12 - 1) (log2Up 64) - 1 = 5 := by decide
  have hlow : bits x.exp.toNat 5 0 = x.exp.toNat - 2 ^ 11 := by
    rw [bits_zero_right]
    omega
  rw [shiftedSig, roundDist, isZeroOrOne_eq, decide_eq_false (Nat.not_lt.mpr hlo),
    if_neg (by simp), hdist, hlow, Nat.shiftLeft_eq, cat, Bool.not_false, Bool.toNat_true,
    Nat.one_mul, RecFloat.significand]

theorem mag_of_ge :
    x.mag = shiftedSig 64 x / 2 ^ (51 + 1) := by
  rw [shiftedSig_of_ge hlo hhi, RecFloat.mag, div_eq_mul_inv, ← zpow_natCast (2 : ℚ) (51 + 1),
    ← zpow_neg, Nat.cast_mul, mul_assoc, Nat.cast_pow, Nat.cast_two,
    ← zpow_natCast (2 : ℚ) (x.exp.toNat - 2 ^ 11), ← zpow_add₀ two_ne_zero]
  refine congrArg (fun i : ℤ => (x.significand : ℚ) * 2 ^ i) ?_
  push_cast
  omega

theorem shiftedSig_lt :
    shiftedSig 64 x < 2 ^ (53 + (x.exp.toNat - 2 ^ 11)) ∧
      2 ^ (52 + (x.exp.toNat - 2 ^ 11)) ≤ shiftedSig 64 x := by
  have hsig := x.sig.isLt
  rw [shiftedSig_of_ge hlo hhi, pow_add, pow_add, RecFloat.significand]
  refine ⟨Nat.mul_lt_mul_of_pos_right ?_ (Nat.two_pow_pos _), Nat.mul_le_mul_right _ ?_⟩
  · omega
  · exact Nat.le_add_right ..

theorem unrounded_of_ge :
    unrounded 64 x = shiftedSig 64 x / 2 ^ (51 + 1) ∧
      2 ^ (x.exp.toNat - 2 ^ 11) ≤ unrounded 64 x ∧
      unrounded 64 x < 2 ^ (x.exp.toNat - 2 ^ 11 + 1) := by
  obtain ⟨habove, hbelow⟩ := shiftedSig_lt hlo hhi
  have hwidth : unroundedWidth 64 12 + 52 - 1 + 1 = 116 := by decide
  have hunrounded : unrounded 64 x = shiftedSig 64 x / 2 ^ (51 + 1) := by
    refine bits_of_lt ?_
    rw [hwidth]
    exact habove.trans_le (Nat.pow_le_pow_right two_pos (by omega))
  refine ⟨hunrounded, ?_, ?_⟩
  · rw [hunrounded, Nat.le_div_iff_mul_le (Nat.two_pow_pos _), ← pow_add, Nat.add_comm]
    exact hbelow
  · rw [hunrounded, Nat.div_lt_iff_lt_mul (Nat.two_pow_pos _), ← pow_add]
    exact habove.trans_eq (congrArg (2 ^ ·) (by omega))

end

theorem round_of_ge (hlo : 2 ^ 11 ≤ x.exp.toNat) (roundingMode : RoundingMode) :
    round 64 x roundingMode = roundingMode.roundBit x.sign ((shiftedSig 64 x).testBit (51 + 1))
      ((shiftedSig 64 x).testBit 51) (decide (shiftedSig 64 x % 2 ^ 51 ≠ 0)) := by
  have hzero : isZeroOrOne x = false := by
    rw [isZeroOrOne_eq, decide_eq_false (Nat.not_lt.mpr hlo)]
  have hsticky : roundBits0 64 x = decide (shiftedSig 64 x % 2 ^ 51 ≠ 0) := by
    rw [roundBits0, bits_zero_right]
  rw [← hsticky]
  cases roundingMode with
  | nearestEven =>
    rw [round, roundNearest, hzero, if_neg (by simp)]
    exact Bool.or_comm ..
  | minMag => rfl
  | min =>
    rw [round, nonzeroSig, hzero, if_neg (by simp)]
    rfl
  | max =>
    rw [round, nonzeroSig, hzero, if_neg (by simp)]
    rfl

theorem roundNat_of_ge (hlo : 2 ^ 11 ≤ x.exp.toNat) (hhi : x.exp.toNat < 2 ^ 11 + 64)
    (roundingMode : RoundingMode) : roundingMode.roundNat x.sign x.mag =
      unrounded 64 x + (round 64 x roundingMode).toNat := by
  rw [mag_of_ge hlo hhi, RoundingMode.roundNat_div, RoundingMode.roundShift,
    (unrounded_of_ge hlo hhi).1, round_of_ge hlo]

theorem roundInexact_of_ge (hlo : 2 ^ 11 ≤ x.exp.toNat) (hhi : x.exp.toNat < 2 ^ 11 + 64)
    (roundingMode : RoundingMode) :
    roundInexact 64 x = decide ((roundingMode.roundNat x.sign x.mag : ℚ) ≠ x.mag) := by
  have hexact : roundingMode.roundShift x.sign (shiftedSig 64 x) 51 * 2 ^ (51 + 1) =
      shiftedSig 64 x ↔ shiftedSig 64 x % 2 ^ (51 + 1) = 0 :=
    RoundingMode.roundShift_mul_eq_iff _ _
  rw [roundInexact_eq]
  refine decide_eq_decide.mpr (not_congr ?_)
  rw [mag_of_ge hlo hhi, RoundingMode.roundNat_div, eq_div_iff (by positivity), ← hexact]
  exact_mod_cast Iff.rfl

/-! ### Numbers that are out of range -/

theorem two_pow_le_mag_iff (k : ℕ) : ((2 ^ k : ℕ) : ℚ) ≤ x.mag ↔ 2 ^ 11 + k ≤ x.exp.toNat := by
  obtain ⟨hlo, hhi⟩ := mag_bounds (x := x)
  rw [Nat.cast_pow, Nat.cast_ofNat, ← zpow_natCast]
  constructor
  · intro h
    have hlt := (zpow_lt_zpow_iff_right₀ (one_lt_two (α := ℚ))).mp (h.trans_lt hhi)
    omega
  · intro h
    exact (zpow_le_zpow_right₀ one_le_two (by omega)).trans hlo

theorem posExponent_eq (hlo : 2 ^ 11 ≤ x.exp.toNat) : posExponent x = x.exp.toNat - 2 ^ 11 := by
  have hlt := x.exp.isLt
  rw [posExponent, bits_zero_right]
  omega

/-- The word has all bits set only at the largest exponent, and then it has no fraction to round. -/
theorem roundCarry_eq (hlo : 2 ^ 11 ≤ x.exp.toNat) (hhi : x.exp.toNat < 2 ^ 11 + 64)
    (roundingMode : RoundingMode) : roundCarry 64 x roundingMode = false := by
  obtain ⟨-, -, hbelow⟩ := unrounded_of_ge hlo hhi
  have hwidth : unroundedWidth 64 12 = 64 := by decide
  rw [roundCarry, hwidth]
  rcases Nat.lt_or_ge x.exp.toNat (2 ^ 11 + 63) with hlt | hge
  · have hsmall : unrounded 64 x < 2 ^ 63 :=
      hbelow.trans_le (Nat.pow_le_pow_right two_pos (by omega))
    rw [decide_eq_false (by omega), Bool.and_false]
  · have hplace : x.exp.toNat - 2 ^ 11 = 52 + 11 := by omega
    have hmod : shiftedSig 64 x % 2 ^ (51 + 1) = 0 := by
      rw [shiftedSig_of_ge hlo hhi, hplace, pow_add, ← Nat.mul_assoc, Nat.mul_right_comm]
      exact Nat.mul_mod_left ..
    have hexact : roundingMode.roundShift x.sign (shiftedSig 64 x) 51 * 2 ^ (51 + 1) =
        shiftedSig 64 x := (RoundingMode.roundShift_mul_eq_iff _ _).mpr hmod
    have hround : round 64 x roundingMode = false := by
      rw [round_of_ge hlo, Bool.eq_false_iff, ne_eq, ← RoundingMode.lt_roundShift_mul_iff, hexact]
      exact lt_irrefl _
    rw [hround, Bool.false_and]

/-- A signed type takes the integers below its bound, and no others. -/
theorem signedInvalid_eq {n : ℕ} (hn : 2 ≤ n) (hle : n ≤ 64) (roundingMode : RoundingMode) :
    signedInvalid 64 x roundingMode n = decide (2 ^ 11 + (n - 1) ≤ x.exp.toNat) := by
  rw [signedInvalid, isZeroOrOne_eq]
  rcases Nat.lt_or_ge x.exp.toNat (2 ^ 11) with hlt | hlo
  · rw [decide_eq_true hlt, if_pos rfl, decide_eq_false (by omega)]
  · rw [decide_eq_false (Nat.not_lt.mpr hlo), if_neg (by simp), posExponent_eq hlo]
    by_cases hcarry : x.exp.toNat - 2 ^ 11 = n - 2
    · rw [if_pos hcarry, signedOverflowCarry, roundCarry_eq hlo (by omega), Bool.and_false,
        decide_eq_false (by omega)]
    · rw [if_neg hcarry]
      by_cases htop : x.exp.toNat - 2 ^ 11 = n - 1
      · have hpos := (Nat.two_pow_pos _).trans_le (unrounded_of_ge hlo (by omega)).2.1
        rw [if_pos htop, signedOverflow, decide_eq_true hpos.ne', Bool.or_true,
          decide_eq_true (by omega)]
      · rw [if_neg htop]
        exact decide_eq_decide.mpr (by omega)

theorem unsignedInvalid_eq {n : ℕ} (hn : 2 ≤ n) (hle : n ≤ 64) (roundingMode : RoundingMode) :
    unsignedInvalid 64 x roundingMode n =
      if x.exp.toNat < 2 ^ 11 then x.sign && round 64 x roundingMode
      else x.sign || decide (2 ^ 11 + n ≤ x.exp.toNat) := by
  rw [unsignedInvalid, isZeroOrOne_eq]
  rcases Nat.lt_or_ge x.exp.toNat (2 ^ 11) with hlt | hlo
  · rw [decide_eq_true hlt, if_pos rfl, if_pos hlt]
  · rw [decide_eq_false (Nat.not_lt.mpr hlo), if_neg (by simp),
      if_neg (Nat.not_lt.mpr hlo), posExponent_eq hlo]
    refine congrArg (x.sign || ·) ?_
    by_cases htop : x.exp.toNat - 2 ^ 11 = n - 1
    · rw [if_pos htop, roundCarry_eq hlo (by omega), decide_eq_false (by omega)]
    · rw [if_neg htop]
      exact decide_eq_decide.mpr (by omega)

/-! ### The word that is delivered -/

theorem wrap_rounded (roundingMode : RoundingMode) {n : ℕ} (hle : n ≤ 64) :
    wrap n (rounded 64 x roundingMode) =
      wrap n (signMag x.sign (unrounded 64 x + (round 64 x roundingMode).toNat)) := by
  have hwidth : unroundedWidth 64 12 = 64 := by decide
  have hunrounded : unrounded 64 x < 2 ^ 64 := by
    refine (bits_lt _ _ _).trans_le (Nat.pow_le_pow_right two_pos ?_)
    decide
  refine wrap_congr (Int.ModEq.of_dvd (pow_dvd_pow 2 hle) ?_)
  rw [rounded, hwidth]
  refine (signed_modEq 64 _).trans ?_
  rw [onescomp, hwidth, signMag]
  push_cast
  refine (Int.mod_modEq _ _).trans ?_
  cases x.sign with
  | false =>
    rw [if_neg (by simp), if_neg (by simp), Bool.xor_false]
  | true =>
    rw [if_pos rfl, if_pos rfl, Bool.xor_true]
    refine Int.modEq_iff_dvd.mpr ⟨-1, ?_⟩
    cases round 64 x roundingMode <;> simp <;> omega

theorem result_word (roundingMode : RoundingMode) (typeOp : IntType) :
    (result 64 x roundingMode typeOp).word = wrap (typeOp.width 64)
      (if invalid 64 x roundingMode typeOp then invalidValue 64 x typeOp
      else signMag x.sign (unrounded 64 x + (round 64 x roundingMode).toNat)) := by
  have hle : typeOp.width 64 ≤ 64 := by
    cases typeOp <;> decide
  have hofInt : ∀ z : ℤ, (BitVec.ofInt 64 z).toNat = wrap 64 z := fun z => BitVec.toNat_ofInt z
  rw [result, out, hofInt, wrap_mod hle]
  split
  · rfl
  · exact wrap_rounded roundingMode hle

/-! ### Finite operands -/

/-- The magnitude of a finite operand. -/
def magnitude (x : RecFloat 52 12) : ℚ := if x.isZero then 0 else x.mag

theorem val_of_lt (h : x.exp.toNat < 3 * 2 ^ 10) : x.val = .finite x.sign (magnitude x) := by
  have hnan : ¬ x.isNaN = true := by
    rw [RecFloat.isNaN_iff (by omega)]
    omega
  have hinf : ¬ x.isInf = true := by
    rw [RecFloat.isInf_iff (by omega)]
    omega
  rw [RecFloat.val, if_neg hnan, if_neg hinf, magnitude]

theorem magnitude_of_ge (hlo : 2 ^ 11 ≤ x.exp.toNat) : magnitude x = x.mag := by
  have hzero : ¬ x.isZero = true := by
    rw [RecFloat.isZero_iff (by omega)]
    omega
  rw [magnitude, if_neg hzero]

theorem magnitude_nonneg : 0 ≤ magnitude x := by
  rw [magnitude]
  split
  · exact le_rfl
  · exact (zpow_pos two_pos _).le.trans mag_bounds.1

theorem two_pow_le_magnitude_iff (k : ℕ) :
    ((2 ^ k : ℕ) : ℚ) ≤ magnitude x ↔ 2 ^ 11 + k ≤ x.exp.toNat := by
  rcases Nat.lt_or_ge x.exp.toNat (2 ^ 11) with hlt | hlo
  · refine iff_of_false ?_ (by omega)
    have hone : ((1 : ℕ) : ℚ) ≤ (2 ^ k : ℕ) := Nat.cast_le.mpr (Nat.two_pow_pos k)
    have hmag := (mag_lt_one hlt).2
    rw [not_le, magnitude]
    rw [Nat.cast_one] at hone
    split
    · exact zero_lt_one.trans_le hone
    · exact hmag.trans_le hone
  · rw [magnitude_of_ge hlo, two_pow_le_mag_iff]

theorem magnitude_lt_one_iff : magnitude x < 1 ↔ x.exp.toNat < 2 ^ 11 := by
  have hone := two_pow_le_magnitude_iff (x := x) 0
  rw [pow_zero, Nat.cast_one, Nat.add_zero] at hone
  rw [← not_le, hone, Nat.not_le]

theorem roundNat_magnitude (hhi : x.exp.toNat < 2 ^ 11 + 64) (roundingMode : RoundingMode) :
    roundingMode.roundNat x.sign (magnitude x) =
      unrounded 64 x + (round 64 x roundingMode).toNat := by
  rcases Nat.lt_or_ge x.exp.toNat (2 ^ 11) with hlt | hlo
  · rw [unrounded_of_lt hlt, Nat.zero_add]
    exact roundNat_of_lt hlt roundingMode
  · rw [magnitude_of_ge hlo, roundNat_of_ge hlo hhi]

theorem roundNat_eq_of_lt_one (hlt : x.exp.toNat < 2 ^ 11) (roundingMode : RoundingMode) :
    (roundingMode.roundNat x.sign (magnitude x) : ℚ) = magnitude x ↔ magnitude x = 0 := by
  constructor
  · intro h
    have hone := magnitude_lt_one_iff.mpr hlt
    rw [← h, Nat.cast_lt_one] at hone
    rw [← h, hone, Nat.cast_zero]
  · intro h
    rw [h, RoundingMode.roundNat_zero, Nat.cast_zero]

/-- Whether the circuit takes a finite operand for one that is out of range. -/
theorem invalid_eq (h : x.exp.toNat < 3 * 2 ^ 10) (roundingMode : RoundingMode)
    (typeOp : IntType) : invalid 64 x roundingMode typeOp =
      if typeOp.isSigned = false ∧ x.sign = true then
        decide (roundingMode.roundNat x.sign (magnitude x) ≠ 0)
      else decide ((typeOp.bound 64 : ℚ) ≤ magnitude x) := by
  have hspecial : isSpecial x = false := by
    rw [isSpecial, bits_of_lt x.exp.isLt, decide_eq_false]
    omega
  have hunsigned : ∀ n, 2 ≤ n → n ≤ 64 → unsignedInvalid 64 x roundingMode n =
      if x.sign = true then decide (roundingMode.roundNat x.sign (magnitude x) ≠ 0)
      else decide (((2 ^ n : ℕ) : ℚ) ≤ magnitude x) := by
    intro n hn hle
    rw [unsignedInvalid_eq hn hle, decide_eq_decide.mpr (two_pow_le_magnitude_iff n)]
    rcases Nat.lt_or_ge x.exp.toNat (2 ^ 11) with hlt | hlo
    · rw [if_pos hlt, roundNat_magnitude (by omega), unrounded_of_lt hlt, Nat.zero_add,
        decide_eq_false (by omega : ¬ 2 ^ 11 + n ≤ x.exp.toNat)]
      cases x.sign <;> cases round 64 x roundingMode <;> rfl
    · have hpos : 1 ≤ roundingMode.roundNat x.sign (magnitude x) := by
        refine RoundingMode.le_roundNat ?_
        rw [← pow_zero 2, two_pow_le_magnitude_iff]
        exact hlo
      rw [if_neg (Nat.not_lt.mpr hlo), decide_eq_true (Nat.ne_of_gt hpos)]
      cases x.sign <;> rfl
  have hsigned : ∀ n, 2 ≤ n → n ≤ 64 → signedInvalid 64 x roundingMode n =
      decide (((2 ^ (n - 1) : ℕ) : ℚ) ≤ magnitude x) := by
    intro n hn hle
    rw [signedInvalid_eq hn hle, decide_eq_decide.mpr (two_pow_le_magnitude_iff (n - 1))]
  cases typeOp with
  | uint32 =>
    rw [invalid, hspecial, Bool.false_or, hunsigned _ (by omega) (by omega)]
    exact if_congr (and_iff_right rfl).symm rfl rfl
  | int32 =>
    rw [invalid, hspecial, Bool.false_or, hsigned _ (by omega) (by omega)]
    exact (if_neg fun hand => absurd hand.1 Bool.noConfusion).symm
  | uint64 =>
    rw [invalid, hspecial, Bool.false_or, hunsigned _ (by omega) (by omega)]
    exact if_congr (and_iff_right rfl).symm rfl rfl
  | int64 =>
    rw [invalid, hspecial, Bool.false_or, hsigned _ (by omega) (by omega)]
    exact (if_neg fun hand => absurd hand.1 Bool.noConfusion).symm

/-! ### The integers of a type -/

theorem bound_eq (typeOp : IntType) : ∃ k, 0 < k ∧ k ≤ 64 ∧ typeOp.bound 64 = 2 ^ k := by
  cases typeOp with
  | uint32 => exact ⟨32, by decide, by decide, rfl⟩
  | int32 => exact ⟨31, by decide, by decide, rfl⟩
  | uint64 => exact ⟨64, by decide, by decide, rfl⟩
  | int64 => exact ⟨63, by decide, by decide, rfl⟩

theorem least_eq (typeOp : IntType) :
    typeOp.least 64 = if typeOp.isSigned then -(typeOp.bound 64 : ℤ) else 0 := by
  cases typeOp <;> rfl

/-- The largest integer and the smallest one are all of the words apart. -/
theorem saturated_sub (typeOp : IntType) :
    typeOp.saturated 64 false - typeOp.saturated 64 true = 2 ^ typeOp.width 64 - 1 := by
  cases typeOp <;> decide

theorem wrap_saturated_inj (typeOp : IntType) (a b : Bool) :
    wrap (typeOp.width 64) (typeOp.saturated 64 a) =
      wrap (typeOp.width 64) (typeOp.saturated 64 b) ↔
      a = b := by
  have hdiff := saturated_sub typeOp
  have hne : wrap (typeOp.width 64) (typeOp.saturated 64 true) ≠
      wrap (typeOp.width 64) (typeOp.saturated 64 false) := by
    intro h
    have hdvd := (wrap_eq_iff.mp h).dvd
    rw [hdiff] at hdvd
    have hone : (2 : ℤ) ^ typeOp.width 64 ∣ 1 := by
      have hself := dvd_sub (dvd_refl ((2 : ℤ) ^ typeOp.width 64)) hdvd
      rwa [sub_sub_cancel] at hself
    cases typeOp <;> exact absurd hone (by decide)
  cases a with
  | false =>
    cases b with
    | false => exact iff_of_true rfl rfl
    | true => exact iff_of_false hne.symm Bool.false_ne_true
  | true =>
    cases b with
    | false => exact iff_of_false hne Bool.noConfusion
    | true => exact iff_of_true rfl rfl

/-- What the circuit takes for a saturated integer: the sign counts for signed types only. -/
theorem wrap_invalidValue (typeOp : IntType) : wrap (typeOp.width 64) (invalidValue 64 x typeOp) =
    wrap (typeOp.width 64) (typeOp.saturated 64 (x.sign && typeOp.isSigned)) := by
  cases typeOp with
  | uint32 =>
    rw [show (x.sign && IntType.uint32.isSigned) = false from Bool.and_false _, invalidValue]
    decide
  | int32 => cases hsign : x.sign <;> rw [invalidValue, hsign] <;> rfl
  | uint64 =>
    rw [show (x.sign && IntType.uint64.isSigned) = false from Bool.and_false _, invalidValue]
    decide
  | int64 => cases hsign : x.sign <;> rw [invalidValue, hsign] <;> rfl

/-! ### What is delivered -/

theorem result_of_invalid {roundingMode : RoundingMode} {typeOp : IntType}
    (h : invalid 64 x roundingMode typeOp = true) : result 64 x roundingMode typeOp =
      ⟨wrap (typeOp.width 64) (typeOp.saturated 64 (x.sign && typeOp.isSigned)), true, false⟩ := by
  have hword := result_word (x := x) roundingMode typeOp
  rw [h, if_pos rfl, wrap_invalidValue] at hword
  refine IntResult.mk.injEq .. ▸ ⟨hword, h, ?_⟩
  rw [exc, inexact, h, Bool.not_true, Bool.and_false]

section

variable {roundingMode : RoundingMode} {typeOp : IntType} (hfin : x.exp.toNat < 3 * 2 ^ 10)
  (h : invalid 64 x roundingMode typeOp = false)
include hfin h

/-- An operand that is not out of range for the circuit is none for its shifter. -/
theorem exp_lt_of_valid :
    x.exp.toNat < 2 ^ 11 + 64 := by
  by_contra hge
  obtain ⟨k, hk, hle, hbound⟩ := bound_eq typeOp
  have hlarge : (typeOp.bound 64 : ℚ) ≤ magnitude x := by
    rw [hbound, two_pow_le_magnitude_iff]
    omega
  have hround : typeOp.bound 64 ≤ roundingMode.roundNat x.sign (magnitude x) :=
    RoundingMode.le_roundNat hlarge
  have hpos : 0 < typeOp.bound 64 := by
    rw [hbound]
    exact Nat.two_pow_pos k
  rw [invalid_eq hfin] at h
  split at h
  · exact of_decide_eq_false h (by omega)
  · exact of_decide_eq_false h hlarge

theorem result_of_valid :
    result 64 x roundingMode typeOp =
      ⟨wrap (typeOp.width 64) (signMag x.sign (roundingMode.roundNat x.sign (magnitude x))), false,
        roundInexact 64 x⟩ := by
  have hword := result_word (x := x) roundingMode typeOp
  rw [h, if_neg (by simp), ← roundNat_magnitude (exp_lt_of_valid hfin h)] at hword
  refine IntResult.mk.injEq .. ▸ ⟨hword, h, ?_⟩
  rw [exc, inexact, h, Bool.not_false, Bool.and_true]

end

/-- The integers of a type, by their sign. -/
def InRange (typeOp : IntType) (neg : Bool) (n : ℕ) : Prop :=
  if neg then if typeOp.isSigned then n ≤ typeOp.bound 64 else n = 0 else n < typeOp.bound 64

theorem bound_pos (typeOp : IntType) : 0 < typeOp.bound 64 := by
  obtain ⟨k, -, -, hbound⟩ := bound_eq typeOp
  rw [hbound]
  exact Nat.two_pow_pos k

theorem in_range_iff (typeOp : IntType) (neg : Bool) (n : ℕ) :
    (typeOp.least 64 ≤ signMag neg n ∧ signMag neg n < typeOp.bound 64) ↔
      InRange typeOp neg n := by
  have hpos := bound_pos typeOp
  rw [least_eq, signMag, InRange]
  cases neg <;> cases typeOp.isSigned <;> simp <;> omega

theorem convert_of_in_range {roundingMode : RoundingMode} {typeOp : IntType} {neg : Bool} {q : ℚ}
    (h : InRange typeOp neg (roundingMode.roundNat neg q)) :
    typeOp.convert 64 roundingMode (.finite neg q) =
      ⟨wrap (typeOp.width 64) (signMag neg (roundingMode.roundNat neg q)), false,
        decide ((roundingMode.roundNat neg q : ℚ) ≠ q)⟩ :=
  if_pos ((in_range_iff ..).mpr h)

theorem convert_of_out_of_range {roundingMode : RoundingMode} {typeOp : IntType} {neg : Bool}
    {q : ℚ} (h : ¬ InRange typeOp neg (roundingMode.roundNat neg q)) :
    typeOp.convert 64 roundingMode (.finite neg q) =
      ⟨wrap (typeOp.width 64) (typeOp.saturated 64 neg), true, false⟩ :=
  if_neg fun hrange => h ((in_range_iff ..).mp hrange)

theorem invalid_conforms_iff {roundingMode : RoundingMode} {typeOp : IntType}
    (hfin : x.exp.toNat < 3 * 2 ^ 10) (h : invalid 64 x roundingMode typeOp = true) :
    result 64 x roundingMode typeOp = typeOp.convert 64 roundingMode x.val ↔
      typeOp.Served 64 roundingMode x := by
  rw [result_of_invalid h, IntType.Served, val_of_lt hfin]
  rw [invalid_eq hfin] at h
  by_cases hneg : typeOp.isSigned = false ∧ x.sign = true
  · rw [if_pos hneg, decide_eq_true_iff] at h
    have hrange : ¬ InRange typeOp x.sign (roundingMode.roundNat x.sign (magnitude x)) := by
      rw [InRange, hneg.1, hneg.2]
      rwa [hneg.2] at h
    rw [convert_of_out_of_range hrange, hneg.1, hneg.2, Bool.and_false]
    rw [hneg.2] at h
    refine iff_of_false ?_ fun hserved => h hserved.2
    intro hresult
    exact Bool.false_ne_true ((wrap_saturated_inj ..).mp (congrArg IntResult.word hresult))
  · rw [if_neg hneg, decide_eq_true_iff] at h
    have hround : typeOp.bound 64 ≤ roundingMode.roundNat x.sign (magnitude x) :=
      RoundingMode.le_roundNat h
    have hone : ¬ magnitude x < 1 := by
      have hpos : ((1 : ℕ) : ℚ) ≤ typeOp.bound 64 := Nat.cast_le.mpr (bound_pos typeOp)
      rw [Nat.cast_one] at hpos
      exact not_lt.mpr (hpos.trans h)
    cases hsign : x.sign with
    | false =>
      rw [hsign] at hround
      have hrange : ¬ InRange typeOp false (roundingMode.roundNat false (magnitude x)) :=
        not_lt.mpr hround
      rw [convert_of_out_of_range hrange, Bool.false_and]
      exact iff_of_true rfl ⟨fun hlt => absurd hlt hone, fun hlt => absurd h (not_le.mpr hlt)⟩
    | true =>
      have hsigned : typeOp.isSigned = true := by
        rw [← Bool.not_eq_false]
        exact fun hunsigned => hneg ⟨hunsigned, hsign⟩
      rw [hsign] at hround
      rw [hsigned, Bool.true_and]
      by_cases heq : roundingMode.roundNat true (magnitude x) = typeOp.bound 64
      · have hrange : InRange typeOp true (roundingMode.roundNat true (magnitude x)) := by
          rw [InRange, hsigned]
          exact heq.le
        rw [convert_of_in_range hrange]
        refine iff_of_false ?_ fun hserved => hserved.2 h heq
        intro hresult
        exact Bool.noConfusion (congrArg IntResult.invalid hresult)
      · have hrange : ¬ InRange typeOp true (roundingMode.roundNat true (magnitude x)) := by
          rw [InRange, hsigned]
          exact fun hle => heq (le_antisymm hle hround)
        rw [convert_of_out_of_range hrange]
        exact iff_of_true rfl ⟨fun hlt => absurd hlt hone, fun _ => heq⟩

/-- The inexact flag of an operand that is in range for the circuit. -/
theorem inexact_conforms_iff (hhi : x.exp.toNat < 2 ^ 11 + 64) (roundingMode : RoundingMode) :
    roundInexact 64 x =
        decide ((roundingMode.roundNat x.sign (magnitude x) : ℚ) ≠ magnitude x) ↔
      (magnitude x < 1 → (x.sig = 0 ↔ magnitude x = 0)) := by
  rcases Nat.lt_or_ge x.exp.toNat (2 ^ 11) with hlt | hlo
  · rw [roundInexact_of_lt hlt, decide_eq_decide, not_iff_not, roundNat_eq_of_lt_one hlt,
      imp_iff_right (magnitude_lt_one_iff.mpr hlt)]
  · have hone : ¬ magnitude x < 1 := by
      rw [magnitude_lt_one_iff]
      omega
    rw [magnitude_of_ge hlo] at hone ⊢
    exact iff_of_true (roundInexact_of_ge hlo hhi roundingMode) fun hlt => absurd hlt hone

theorem valid_conforms_iff {roundingMode : RoundingMode} {typeOp : IntType}
    (hfin : x.exp.toNat < 3 * 2 ^ 10) (h : invalid 64 x roundingMode typeOp = false) :
    result 64 x roundingMode typeOp = typeOp.convert 64 roundingMode x.val ↔
      typeOp.Served 64 roundingMode x := by
  have hinexact := inexact_conforms_iff (exp_lt_of_valid hfin h) roundingMode
  rw [result_of_valid hfin h, IntType.Served, val_of_lt hfin]
  have hvalid := h
  rw [invalid_eq hfin] at hvalid
  by_cases hrange : InRange typeOp x.sign (roundingMode.roundNat x.sign (magnitude x))
  · rw [convert_of_in_range hrange, IntResult.mk.injEq, and_iff_right rfl, and_iff_right rfl,
      hinexact]
    refine (and_iff_left ?_).symm
    cases hsign : x.sign with
    | false =>
      rw [hsign] at hrange
      exact fun _ => hrange
    | true =>
      cases hsigned : typeOp.isSigned with
      | true =>
        rw [if_neg fun hneg => by simp [hsigned] at hneg] at hvalid
        exact fun hle => absurd hle (of_decide_eq_false hvalid)
      | false =>
        rw [InRange, hsign, hsigned] at hrange
        exact hrange
  · rw [convert_of_out_of_range hrange]
    refine iff_of_false ?_ fun hserved => hrange ?_
    · intro hresult
      exact Bool.noConfusion (congrArg IntResult.invalid hresult)
    · have hserved := hserved.2
      rw [InRange]
      cases hsign : x.sign with
      | false =>
        rw [if_neg (fun hneg => by simp [hsign] at hneg)] at hvalid
        rw [hsign] at hserved
        exact hserved (not_le.mp (of_decide_eq_false hvalid))
      | true =>
        rw [hsign] at hserved hvalid
        cases hsigned : typeOp.isSigned with
        | true =>
          rw [if_neg (fun hneg => by simp [hsigned] at hneg)] at hvalid
          exact RoundingMode.roundNat_le magnitude_nonneg
            (not_le.mp (of_decide_eq_false hvalid))
        | false =>
          rw [hsigned] at hserved
          exact hserved

end RecodedToAny

/-- **What the conversion serves.** The circuit delivers the integer that the operand is rounded to,
or the one that takes its place, with the flags of the conversion, exactly if the operand is none of
those that go wrong. -/
theorem recodedFloatNToAny_iff (x : RecFloat 52 12) (roundingMode : RoundingMode)
    (typeOp : IntType) :
    RecodedToAny.result 64 x roundingMode typeOp = typeOp.convert 64 roundingMode x.val ↔
      typeOp.Served 64 roundingMode x := by
  rcases Nat.lt_or_ge x.exp.toNat (3 * 2 ^ 10) with hfin | hspecial
  · cases h : RecodedToAny.invalid 64 x roundingMode typeOp with
    | false => exact RecodedToAny.valid_conforms_iff hfin h
    | true => exact RecodedToAny.invalid_conforms_iff hfin h
  · have hinvalid : RecodedToAny.invalid 64 x roundingMode typeOp = true := by
      have hlt := x.exp.isLt
      have hcode : RecodedToAny.isSpecial x = true := by
        rw [RecodedToAny.isSpecial, bits_of_lt x.exp.isLt, decide_eq_true]
        omega
      cases typeOp <;> rw [RecodedToAny.invalid, hcode, Bool.true_or]
    rw [RecodedToAny.result_of_invalid hinvalid, IntType.Served]
    cases hnan : x.isNaN with
    | true =>
      rw [RecFloat.val_of_isNaN hnan, IntType.convert, IntResult.mk.injEq, and_iff_left ⟨rfl, rfl⟩,
        RecodedToAny.wrap_saturated_inj]
      cases x.sign <;> cases typeOp.isSigned <;> simp
    | false =>
      have hinf : x.isInf = true := by
        rw [RecFloat.isInf_iff (by omega)]
        rw [Bool.eq_false_iff, ne_eq, RecFloat.isNaN_iff (by omega)] at hnan
        omega
      rw [RecFloat.val_of_isInf hinf, IntType.convert, IntResult.mk.injEq, and_iff_left ⟨rfl, rfl⟩,
        RecodedToAny.wrap_saturated_inj]
      cases x.sign <;> cases typeOp.isSigned <;> simp

/-- The most negative integer of half a word, as a recoded number. -/
def leastInt32 : RecFloat 52 12 := ⟨true, 2079, 0⟩

/-- The most negative integer is taken for one that is out of range. -/
theorem leastInt32_invalid :
    RecodedToAny.result 64 leastInt32 .nearestEven .int32 ≠
      IntType.int32.convert 64 .nearestEven leastInt32.val := by
  have hfin : leastInt32.exp.toNat < 3 * 2 ^ 10 := by decide
  have hround : RoundingMode.nearestEven.roundNat true (RecodedToAny.magnitude leastInt32) =
      RecodedToAny.unrounded 64 leastInt32 +
        (RecodedToAny.round 64 leastInt32 .nearestEven).toNat :=
    RecodedToAny.roundNat_magnitude (x := leastInt32) (by decide) .nearestEven
  have hrange : RecodedToAny.InRange .int32 true
      (RoundingMode.nearestEven.roundNat true (RecodedToAny.magnitude leastInt32)) := by
    rw [hround]
    show RecodedToAny.unrounded 64 leastInt32 +
        (RecodedToAny.round 64 leastInt32 .nearestEven).toNat ≤ 2 ^ 31
    decide
  have hval : leastInt32.val = .finite true (RecodedToAny.magnitude leastInt32) :=
    RecodedToAny.val_of_lt hfin
  have hinvalid : (RecodedToAny.result 64 leastInt32 .nearestEven .int32).invalid = true := by
    decide
  rw [hval, RecodedToAny.convert_of_in_range hrange]
  intro hresult
  rw [hresult] at hinvalid
  exact Bool.noConfusion hinvalid

end RiscvSoc
