import RiscvSoc.Lib.Bits
import RiscvSoc.Lib.Rounding

/-!
# The recoded format

The floating-point unit keeps numbers in a format with one more exponent bit. The top three bits of
the exponent are a code: zero, infinity, NaN, or one of the five codes of the numbers in between.
Subnormal numbers are normalized, so every number in between has its leading one in front of the
fraction; a subnormal number has zeros where its fraction has no place (`RecFloat.Proper`).

The format says nothing about the other bits of a zero, an infinity or a NaN. It has exponents for
numbers that are too small to be subnormal, too.
-/

namespace RiscvSoc

/-- A recoded number: its sign, its exponent and its fraction. -/
structure RecFloat (sigWidth expWidth : ℕ) where
  sign : Bool
  exp : BitVec expWidth
  sig : BitVec sigWidth
  deriving DecidableEq

/-- The five bits of an exception vector, `invalid` first. -/
structure ExceptionFlags where
  invalid : Bool
  infinite : Bool
  overflow : Bool
  underflow : Bool
  inexact : Bool
  deriving DecidableEq

/-- The format of the numbers with fractions of `sigWidth` bits and exponents of `expWidth - 1`. -/
def recFormat (sigWidth expWidth : ℕ) : FloatFormat where
  fracBits := sigWidth
  emin := 2 - 2 ^ (expWidth - 2)
  emax := 2 ^ (expWidth - 2) - 1

namespace RecFloat

variable {sigWidth expWidth : ℕ} (x : RecFloat sigWidth expWidth)

/-- The top three bits of the exponent. -/
def expCode : ℕ := Bits.bits x.exp.toNat (expWidth - 1) (expWidth - 3)

def isZero : Bool := decide (x.expCode = 0)

def isInf : Bool := decide (x.expCode = 6)

def isNaN : Bool := decide (x.expCode = 7)

def isSignalingNaN : Bool := x.isNaN && !x.sig.toNat.testBit (sigWidth - 1)

/-- The fraction with the leading one. -/
def significand : ℕ := 2 ^ sigWidth + x.sig.toNat

/-- The magnitude of a number that is not zero, as far as it is finite. -/
def mag : ℚ := x.significand * 2 ^ ((x.exp.toNat : ℤ) - 2 ^ (expWidth - 1) - sigWidth)

/-- What a recoded number stands for. -/
def val : FloatDatum :=
  if x.isNaN then .nan
  else if x.isInf then .inf x.sign
  else .finite x.sign (if x.isZero then 0 else x.mag)

/-- The exponent of the smallest subnormal number. -/
def minSubnormal (sigWidth expWidth : ℕ) : ℕ := 2 ^ (expWidth - 2) + 2 - sigWidth

/-- The number is in the subnormal range. -/
def IsSubnormal : Prop :=
  minSubnormal sigWidth expWidth ≤ x.exp.toNat ∧ x.exp.toNat < 2 ^ (expWidth - 2) + 2

/-- A finite number of the format that is not zero: its exponent is in the range, and below the unit
in the last place its fraction is zero. -/
def Proper : Prop :=
  x.isZero = false → x.isInf = false → x.isNaN = false →
    minSubnormal sigWidth expWidth ≤ x.exp.toNat ∧
      2 ^ (2 ^ (expWidth - 2) + 2 - x.exp.toNat) ∣ x.sig.toNat

/-- A number that can be taken out of the recoded format: it is a number of the format, and a NaN
does not look like an infinity. -/
structure WellFormed : Prop where
  proper : x.Proper
  sig_ne : x.isNaN = true → x.sig.toNat ≠ 0

variable {x}

section

variable (hE : 3 ≤ expWidth)
include hE

theorem expCode_eq : x.expCode = x.exp.toNat / 2 ^ (expWidth - 3) := by
  rw [expCode, Bits.bits_of_lt]
  rw [Nat.sub_add_cancel (by omega)]
  exact x.exp.isLt

theorem two_pow_expWidth : 2 ^ (expWidth - 2) = 2 * 2 ^ (expWidth - 3) ∧
    2 ^ (expWidth - 1) = 4 * 2 ^ (expWidth - 3) ∧ 2 ^ expWidth = 8 * 2 ^ (expWidth - 3) := by
  obtain ⟨n, rfl⟩ := Nat.exists_eq_add_of_le' hE
  refine ⟨?_, ?_, ?_⟩
  · rw [show n + 3 - 2 = n + 1 by omega, Nat.add_sub_cancel, pow_succ, Nat.mul_comm]
  · rw [show n + 3 - 1 = n + 2 by omega, Nat.add_sub_cancel, pow_add, Nat.mul_comm]
    rfl
  · rw [Nat.add_sub_cancel, pow_add, Nat.mul_comm]
    rfl

theorem isZero_iff :
    x.isZero = true ↔ x.exp.toNat < 2 ^ (expWidth - 3) := by
  rw [isZero, decide_eq_true_iff, expCode_eq hE, Nat.div_eq_zero_iff]
  exact or_iff_right (Nat.two_pow_pos _).ne'

theorem isInf_iff : x.isInf = true ↔
    6 * 2 ^ (expWidth - 3) ≤ x.exp.toNat ∧ x.exp.toNat < 7 * 2 ^ (expWidth - 3) := by
  rw [isInf, decide_eq_true_iff, expCode_eq hE, Nat.div_eq_iff (Nat.two_pow_pos _)]
  have hpos := Nat.two_pow_pos (expWidth - 3)
  omega

theorem isNaN_iff :
    x.isNaN = true ↔ 7 * 2 ^ (expWidth - 3) ≤ x.exp.toNat := by
  rw [isNaN, decide_eq_true_iff, expCode_eq hE, Nat.div_eq_iff (Nat.two_pow_pos _)]
  have hpos := Nat.two_pow_pos (expWidth - 3)
  have hlt := x.exp.isLt
  rw [(two_pow_expWidth hE).2.2] at hlt
  omega

end

/-- A normal number has no place that its fraction does not have. -/
theorem proper_of_le (h : 2 ^ (expWidth - 2) + 2 ≤ x.exp.toNat) : x.Proper := by
  intro _ _ _
  refine ⟨(Nat.sub_le _ _).trans h, ?_⟩
  rw [Nat.sub_eq_zero_of_le h]
  exact one_dvd _

theorem Proper.of_code (h : x.Proper) (hE : 3 ≤ expWidth) (hlo : 2 ^ (expWidth - 3) ≤ x.exp.toNat)
    (hhi : x.exp.toNat < 6 * 2 ^ (expWidth - 3)) :
    minSubnormal sigWidth expWidth ≤ x.exp.toNat ∧
      2 ^ (2 ^ (expWidth - 2) + 2 - x.exp.toNat) ∣ x.sig.toNat := by
  refine h ?_ ?_ ?_ <;> rw [Bool.eq_false_iff, ne_eq]
  · rw [isZero_iff hE]
    omega
  · rw [isInf_iff hE]
    omega
  · rw [isNaN_iff hE]
    omega

theorem val_of_code (hE : 3 ≤ expWidth) (hlo : 2 ^ (expWidth - 3) ≤ x.exp.toNat)
    (hhi : x.exp.toNat < 6 * 2 ^ (expWidth - 3)) : x.val = .finite x.sign x.mag := by
  have hnan : ¬ x.isNaN = true := by
    rw [isNaN_iff hE]
    omega
  have hinf : ¬ x.isInf = true := by
    rw [isInf_iff hE]
    omega
  have hzero : ¬ x.isZero = true := by
    rw [isZero_iff hE]
    omega
  rw [val, if_neg hnan, if_neg hinf, if_neg hzero]

/-- A number in between whose significand was rounded: if it is carried, the exponent is the next
one and the fraction is zero. -/
theorem val_of_rounded (hE : 3 ≤ expWidth) {n e : ℕ} (hlo : 2 ^ sigWidth ≤ n)
    (hhi : n ≤ 2 ^ (sigWidth + 1)) (hsig : x.sig.toNat = n % 2 ^ sigWidth)
    (hexp : x.exp.toNat = e + if n = 2 ^ (sigWidth + 1) then 1 else 0)
    (hcode : 2 ^ (expWidth - 3) ≤ x.exp.toNat) (hcode' : x.exp.toNat < 6 * 2 ^ (expWidth - 3)) :
    x.val = .finite x.sign (n * 2 ^ ((e : ℤ) - 2 ^ (expWidth - 1) - sigWidth)) := by
  rw [val_of_code hE hcode hcode', mag, significand, hsig]
  refine congrArg (FloatDatum.finite x.sign) ?_
  have hdouble : 2 ^ (sigWidth + 1) = 2 ^ sigWidth + 2 ^ sigWidth := by
    rw [pow_succ, Nat.mul_two]
  rcases hhi.lt_or_eq with hlt | heq
  · rw [if_neg hlt.ne, Nat.add_zero] at hexp
    rw [hexp, Nat.mod_eq_sub_mod hlo, Nat.mod_eq_of_lt (by omega), Nat.add_sub_cancel' hlo]
  · rw [if_pos heq] at hexp
    have hzero : n % 2 ^ sigWidth = 0 := by
      rw [heq, pow_succ, Nat.mul_mod_right]
    have hstep : (x.exp.toNat : ℤ) - 2 ^ (expWidth - 1) - sigWidth =
        1 + ((e : ℤ) - 2 ^ (expWidth - 1) - sigWidth) := by
      rw [hexp, Nat.cast_add]
      push_cast
      ring
    rw [hzero, heq, hstep, zpow_add₀ two_ne_zero, Nat.add_zero]
    push_cast
    ring

theorem val_of_isZero (h : x.isZero = true) : x.val = .finite x.sign 0 := by
  have hcode : x.expCode = 0 := of_decide_eq_true h
  rw [val, isNaN, isInf, hcode, h]
  rfl

theorem val_of_isInf (h : x.isInf = true) : x.val = .inf x.sign := by
  have hcode : x.expCode = 6 := of_decide_eq_true h
  rw [val, isNaN, h, hcode]
  rfl

theorem val_of_isNaN (h : x.isNaN = true) : x.val = .nan := by
  rw [val, h]
  rfl

end RecFloat

end RiscvSoc
