import RiscvSoc.Hardfloat.Recoded

/-!
# Conversion between recoded formats

`recodedFloatNToRecodedFloatM`. Widening puts a number into a larger format; narrowing rounds. A
number in the subnormal range of the smaller format is rounded at a position that depends on its
exponent: the significand is or-ed with ones below that position, and one is added if it is rounded
up.
-/

namespace RiscvSoc

open Bits

/-! ### Narrowing -/

/-- The widths of a narrowing conversion. -/
structure NarrowConf where
  inSigWidth : ℕ
  inExpWidth : ℕ
  outSigWidth : ℕ
  outExpWidth : ℕ
  /-- `sigIn(inSigWidth-outSigWidth-2, 0)` has a bit. -/
  sig_lt : outSigWidth + 1 < inSigWidth
  /-- `require (inExpWidth > outExpWidth)`. -/
  exp_lt : outExpWidth < inExpWidth
  outSig_pos : 0 < outSigWidth
  /-- The exponent has room for its code. -/
  three_le : 3 ≤ outExpWidth
  /-- The smallest subnormal number does not have the code of zero. -/
  outSig_le : outSigWidth ≤ 2 ^ (outExpWidth - 3) + 2

namespace Narrow

variable (c : NarrowConf) (x : RecFloat c.inSigWidth c.inExpWidth) (roundingMode : RoundingMode)

def sigIn : ℕ := x.sig.toNat

def expIn : ℕ := x.exp.toNat

def maxExp : ℕ := 2 ^ (c.inExpWidth - 1) + 2 ^ (c.outExpWidth - 2) - 1

def minExp : ℕ := 2 ^ (c.inExpWidth - 1) - (2 ^ (c.outExpWidth - 2) - 1) - c.outSigWidth

def maxSubnormalExp : ℕ := 2 ^ (c.inExpWidth - 1) - (2 ^ (c.outExpWidth - 2) - 1)

/-- `isSpecial`; it counts zero as special. -/
def isSpecial : Bool := x.isZero || decide (x.expCode / 2 = 3)

/-- `isSubnormal`; `minSubnormalExp` is `minExp`. -/
def isSubnormal : Bool :=
  decide (minExp c ≤ expIn c x) && decide (expIn c x ≤ maxSubnormalExp c)

def isUnderflow : Bool := decide (expIn c x < minExp c) && !isSpecial c x

def isOverflow : Bool := decide (maxExp c < expIn c x) && !isSpecial c x

def roundPosition : ℕ :=
  bits (if isSubnormal c x then maxSubnormalExp c + 1 - expIn c x else 0)
    (log2Up (c.outSigWidth + 1) - 1) 0

def sigMSBsShifted : ℕ :=
  cat (cat 1 (c.outSigWidth + 1) (bits (sigIn c x) (c.inSigWidth - 1)
    (c.inSigWidth - c.outSigWidth - 1))) (c.outSigWidth + 1) 0 >>> roundPosition c x

def subNormStickyBit : Bool :=
  decide (bits (sigMSBsShifted c x) c.outSigWidth 0 ≠ 0) ||
    decide (bits (sigIn c x) (c.inSigWidth - c.outSigWidth - 2) 0 ≠ 0)

/-- `roundBits(2)`, the last bit that is kept. -/
def roundBits2 : Bool := (sigMSBsShifted c x).testBit (c.outSigWidth + 2)

def roundBits1 : Bool := (sigMSBsShifted c x).testBit (c.outSigWidth + 1)

def roundInexact : Bool := (roundBits1 c x || subNormStickyBit c x) && !isSpecial c x

def round : Bool :=
  match roundingMode with
  | .nearestEven => roundBits1 c x && subNormStickyBit c x || roundBits2 c x && roundBits1 c x
  | .min => x.sign && roundInexact c x
  | .max => !x.sign && roundInexact c x
  | .minMag => false

def roundMaskShifted : ℕ :=
  bits ((2 ^ (c.outSigWidth + 2) - 1) <<< roundPosition c x) (c.outSigWidth + 1) 0

def sigUnrounded : ℕ :=
  cat 1 c.outSigWidth (bits (sigIn c x) (c.inSigWidth - 1) (c.inSigWidth - c.outSigWidth)) |||
    (2 ^ (c.outSigWidth + 2) - 1 - roundMaskShifted c x)

def sigRounded : ℕ :=
  if round c x roundingMode then (sigUnrounded c x + 1) % 2 ^ (c.outSigWidth + 2)
  else sigUnrounded c x

def expUnrounded : ℕ :=
  (bits (expIn c x) (c.outExpWidth - 1) 0 + 2 ^ (c.outExpWidth - 1)) % 2 ^ c.outExpWidth

def expRounded : ℕ :=
  if (sigRounded c x roundingMode).testBit (c.outSigWidth + 1) then
    (expUnrounded c x + 1) % 2 ^ c.outExpWidth
  else expUnrounded c x

def underflowToSmall : Bool :=
  decide (roundingMode = .min) && x.sign || decide (roundingMode = .max) && !x.sign

def overflowToInf : Bool :=
  underflowToSmall c x roundingMode || decide (roundingMode = .nearestEven)

def sigOverflow : ℕ := if overflowToInf c x roundingMode then 0 else 2 ^ c.outSigWidth - 1

def expOverflow : ℕ :=
  if overflowToInf c x roundingMode then 3 * 2 ^ (c.outExpWidth - 2)
  else 3 * 2 ^ (c.outExpWidth - 2) - 1

def expUnderflow : ℕ :=
  if underflowToSmall c x roundingMode then 2 ^ (c.outExpWidth - 2) + 2 - c.outSigWidth else 0

def expOut : ℕ :=
  if isSpecial c x then x.expCode * 2 ^ (c.outExpWidth - 3)
  else if isOverflow c x then expOverflow c x roundingMode
  else if isUnderflow c x then expUnderflow c x roundingMode
  else expRounded c x roundingMode

def sigOut : ℕ :=
  if isSpecial c x then if x.isNaN then 2 ^ c.outSigWidth - 1 else 0
  else if isOverflow c x then sigOverflow c x roundingMode
  else if isUnderflow c x then 0
  else bits (sigRounded c x roundingMode) (c.outSigWidth - 1) 0

def out : RecFloat c.outSigWidth c.outExpWidth where
  sign := x.sign
  exp := BitVec.ofNat _ (expOut c x roundingMode)
  sig := BitVec.ofNat _ (sigOut c x roundingMode)

def flagUnderflow : Bool := isUnderflow c x || isSubnormal c x && roundInexact c x

def flagOverflow : Bool :=
  isOverflow c x || decide (expIn c x = maxExp c) &&
    (sigRounded c x roundingMode).testBit (c.outSigWidth + 1)

def exc : ExceptionFlags where
  invalid := x.isSignalingNaN
  infinite := false
  overflow := flagOverflow c x roundingMode
  underflow := flagUnderflow c x
  inexact := roundInexact c x || isOverflow c x || isUnderflow c x

end Narrow

/-! ### Widening -/

/-- The widths of a widening conversion. -/
structure WidenConf where
  inSigWidth : ℕ
  inExpWidth : ℕ
  outSigWidth : ℕ
  outExpWidth : ℕ
  sig_le : inSigWidth ≤ outSigWidth
  /-- `require (inExpWidth <= outExpWidth)`. -/
  exp_le : inExpWidth ≤ outExpWidth
  /-- The exponent has room for its code. -/
  three_le : 3 ≤ inExpWidth

namespace Widen

variable (c : WidenConf) (x : RecFloat c.inSigWidth c.inExpWidth)

def expLSBs : ℕ := bits x.exp.toNat (c.inExpWidth - 2) 0

def expOut : ℕ :=
  if x.expCode < 1 then expLSBs c x
  else if x.expCode < 4 then
    cat (2 ^ (c.outExpWidth - c.inExpWidth) - 1) (c.inExpWidth - 1) (expLSBs c x)
  else if x.expCode < 6 then
    cat (2 ^ (c.outExpWidth - c.inExpWidth)) (c.inExpWidth - 1) (expLSBs c x)
  else if x.expCode < 7 then 3 * 2 ^ (c.outExpWidth - 2)
  else 7 * 2 ^ (c.outExpWidth - 3)

def sigOut : ℕ :=
  (if x.isNaN then 2 ^ c.outSigWidth - 1 else 0) ||| x.sig.toNat <<< (c.outSigWidth - c.inSigWidth)

def out : RecFloat c.outSigWidth c.outExpWidth where
  sign := x.sign
  exp := BitVec.ofNat _ (expOut c x)
  sig := BitVec.ofNat _ (sigOut c x)

def exc : ExceptionFlags := ⟨x.isSignalingNaN, false, false, false, false⟩

end Widen

end RiscvSoc
