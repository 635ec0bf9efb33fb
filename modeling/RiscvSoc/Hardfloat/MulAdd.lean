import RiscvSoc.Hardfloat.Recoded
import RiscvSoc.Lib.FloatArith

/-!
# The fused unit

`mulAddSubRecodedFloatN` multiplies two recoded numbers and adds a third one, with one rounding at
the end. The upper bit of its `op` negates the product, the lower one the addend. Here it is a
parameter: `MulAddSub.RoundsAt` says that it rounds correctly in one case.

An addition is done with a product by one, and a multiplication with an addend of zero.
-/

namespace RiscvSoc

/-- `round_nearest_even`, `round_minMag`, `round_min`, `round_max`. -/
def RoundingMode.ofBits (b : BitVec 2) : RoundingMode :=
  if b = 0 then .nearestEven else if b = 1 then .minMag else if b = 2 then .min else .max

/-- `mulAddSubRecodedFloatN`: from `op`, `a`, `b`, `c` and `roundingMode` to `out` and
`exceptionFlags`. -/
def MulAddSub (sigWidth expWidth : ℕ) : Type :=
  BitVec 2 → RecFloat sigWidth expWidth → RecFloat sigWidth expWidth → RecFloat sigWidth expWidth →
    BitVec 2 → RecFloat sigWidth expWidth × BitVec 5

namespace RecFloat

variable {sigWidth expWidth : ℕ} {x : RecFloat sigWidth expWidth}

theorem val_nonneg : x.val.Nonneg := by
  rw [val]
  cases x.isNaN with
  | true => trivial
  | false =>
    cases x.isInf with
    | true => trivial
    | false =>
      cases x.isZero with
      | true => exact le_refl (0 : ℚ)
      | false => exact mul_nonneg (Nat.cast_nonneg _) (zpow_nonneg two_pos.le _)

theorem val_one (hE : 3 ≤ expWidth) (hsign : x.sign = false)
    (hexp : x.exp.toNat = 2 ^ (expWidth - 1)) (hsig : x.sig.toNat = 0) :
    x.val = .finite false 1 := by
  have hunits := two_pow_expWidth hE
  rw [val_of_code hE (by omega) (by omega), hsign, mag, significand, hsig, hexp]
  refine congrArg (FloatDatum.finite false) ?_
  push_cast
  rw [add_zero, sub_self, zero_sub, zpow_neg, zpow_natCast]
  exact mul_inv_cancel₀ (pow_ne_zero _ two_ne_zero)

end RecFloat

namespace MulAddSub

variable {sigWidth expWidth : ℕ}

/-- In this case the result is correctly rounded, and it is a number of the format. -/
structure RoundsAt (u : MulAddSub sigWidth expWidth) (op : BitVec 2)
    (a b c : RecFloat sigWidth expWidth) (roundingMode : BitVec 2) : Prop where
  wellFormed : (u op a b c roundingMode).1.WellFormed
  val : (u op a b c roundingMode).1.val =
    ((recFormat sigWidth expWidth).round (.ofBits roundingMode)
      (.mulAdd (.ofBits roundingMode) (op.getLsbD 1) (op.getLsbD 0) a.val b.val c.val)).datum

variable {u : MulAddSub sigWidth expWidth} {op : BitVec 2} {a b c : RecFloat sigWidth expWidth}
  {roundingMode : BitVec 2}

/-- With a factor of one, the sum of the other factor and the addend. -/
theorem RoundsAt.add (h : u.RoundsAt op a b c roundingMode) (hop : op.getLsbD 1 = false)
    (hb : b.val = .finite false 1) : (u op a b c roundingMode).1.val =
      ((recFormat sigWidth expWidth).round (.ofBits roundingMode)
        (.add (.ofBits roundingMode) a.val
          (if op.getLsbD 0 then c.val.neg else c.val))).datum := by
  rw [h.val, FloatDatum.mulAdd, hop, hb, FloatDatum.mul_one]
  rfl

/-- With a positive zero as the addend, the product, unless it is a negative zero that the rounding
mode does not keep. -/
theorem RoundsAt.mul_iff (h : u.RoundsAt 0 a b c roundingMode) (hc : c.val = .finite false 0) :
    (u 0 a b c roundingMode).1.val =
      ((recFormat sigWidth expWidth).round (.ofBits roundingMode) (.mul a.val b.val)).datum ↔
    ¬(FloatDatum.mul a.val b.val = .finite true 0 ∧ RoundingMode.ofBits roundingMode ≠ .min) := by
  have hnonneg := RecFloat.val_nonneg (x := a).mul (RecFloat.val_nonneg (x := b))
  rw [h.val, FloatDatum.mulAdd, hc]
  show (FloatFormat.round _ _ (.add _ (.mul a.val b.val) (.finite false 0))).datum = _ ↔ _
  rw [FloatDatum.add_zero_eq hnonneg]
  by_cases hbad : FloatDatum.mul a.val b.val = .finite true 0 ∧
      RoundingMode.ofBits roundingMode ≠ .min
  · rw [if_pos hbad, hbad.1, FloatFormat.round_zero, FloatFormat.round_zero]
    refine iff_of_false ?_ (fun hno => hno ⟨rfl, hbad.2⟩)
    exact fun heq => absurd (FloatDatum.finite.inj heq).1 Bool.false_ne_true
  · rw [if_neg hbad]
    exact iff_of_true rfl hbad

end MulAddSub

end RiscvSoc
