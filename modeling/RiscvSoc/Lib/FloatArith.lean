import RiscvSoc.Lib.Rounding

/-!
# Exact sums and products of floats

What is rounded in an operation on floats: the exact sum or product of the operands, with an
infinity or a NaN where there is none. A product has the sign of its operands even when it is zero.
A sum of two numbers that cancel is a zero whose sign only depends on the rounding mode, and two
zeros with the same sign keep it.

A unit that adds to a product can be used for the product alone and for the sum alone, if the other
operand is chosen well. One does not change what it is multiplied with. A positive zero does change
what it is added to, if that is a negative zero.
-/

namespace RiscvSoc

namespace FloatDatum

/-- The same number with the other sign. -/
def neg : FloatDatum → FloatDatum
  | nan => nan
  | inf s => inf !s
  | finite s x => finite (!s) x

/-- The exact product. -/
def mul : FloatDatum → FloatDatum → FloatDatum
  | nan, _ => nan
  | _, nan => nan
  | inf s, inf t => inf (s ^^ t)
  | inf s, finite t y => if y = 0 then nan else inf (s ^^ t)
  | finite s x, inf t => if x = 0 then nan else inf (s ^^ t)
  | finite s x, finite t y => finite (s ^^ t) (x * y)

/-- The exact sum. The rounding mode decides on the sign of a zero. -/
def add (mode : RoundingMode) : FloatDatum → FloatDatum → FloatDatum
  | nan, _ => nan
  | _, nan => nan
  | inf s, inf t => if s = t then inf s else nan
  | inf s, finite _ _ => inf s
  | finite _ _, inf t => inf t
  | finite s x, finite t y =>
    if s = t then finite s (x + y)
    else if x = y then finite (decide (mode = .min)) 0
    else if y < x then finite s (x - y)
    else finite t (y - x)

/-- The exact result of a fused operation: the product, or its negation, and the addend, or its
negation. -/
def mulAdd (mode : RoundingMode) (negProd negAdd : Bool) (a b c : FloatDatum) : FloatDatum :=
  add mode (if negProd then (mul a b).neg else mul a b) (if negAdd then c.neg else c)

/-- The magnitude of a number is not negative. -/
def Nonneg : FloatDatum → Prop
  | nan => True
  | inf _ => True
  | finite _ x => 0 ≤ x

variable {mode : RoundingMode} {d e : FloatDatum}

theorem Nonneg.mul (hd : d.Nonneg) (he : e.Nonneg) : (d.mul e).Nonneg := by
  cases d with
  | nan => trivial
  | inf s =>
    cases e with
    | nan => trivial
    | inf t => trivial
    | finite t y =>
      rw [FloatDatum.mul]
      split <;> trivial
  | finite s x =>
    cases e with
    | nan => trivial
    | inf t =>
      rw [FloatDatum.mul]
      split <;> trivial
    | finite t y => exact mul_nonneg hd he

theorem mul_one (d : FloatDatum) : d.mul (finite false 1) = d := by
  cases d with
  | nan => rfl
  | inf s => rw [mul, if_neg one_ne_zero, Bool.xor_false]
  | finite s x => rw [mul, Bool.xor_false, MulOneClass.mul_one]

/-- A positive zero is neutral, except for a negative zero when the rounding mode says that a zero
sum is positive. -/
theorem add_zero_eq (hd : d.Nonneg) :
    add mode d (finite false 0) =
      if d = finite true 0 ∧ mode ≠ .min then finite false 0 else d := by
  cases d with
  | nan => rfl
  | inf s => rfl
  | finite s x =>
    cases s with
    | false =>
      rw [add, if_pos rfl, AddZeroClass.add_zero, if_neg fun h => absurd h.1 (by simp)]
    | true =>
      rw [add, if_neg (by decide)]
      by_cases hx : x = 0
      · subst hx
        rw [if_pos rfl]
        by_cases hmode : mode = .min
        · rw [if_neg fun h => h.2 hmode, decide_eq_true hmode]
        · rw [if_pos ⟨rfl, hmode⟩, decide_eq_false hmode]
      · have hpos : 0 < x := lt_of_le_of_ne hd (Ne.symm hx)
        rw [if_neg hx, if_pos hpos, sub_zero, if_neg]
        exact fun h => hx (FloatDatum.finite.inj h.1).2

end FloatDatum

end RiscvSoc
