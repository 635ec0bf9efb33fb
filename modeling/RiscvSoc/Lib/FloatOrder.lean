import Mathlib.Algebra.Order.Ring.Rat
import Mathlib.Order.WithBot
import Mathlib.Tactic.Linarith
import RiscvSoc.Lib.FloatArith

/-!
# The order of floating-point numbers

Numbers are compared by their values: both zeros are one number, and the infinities are the ends of
the line. A NaN is not compared with anything, so every ordered comparison with it is false.
-/

namespace RiscvSoc

namespace FloatDatum

def isNaN : FloatDatum → Bool
  | nan => true
  | _ => false

/-- The number with this sign and magnitude. -/
def number (neg : Bool) (mag : ℚ) : ℚ := if neg then -mag else mag

def less : FloatDatum → FloatDatum → Bool
  | nan, _ => false
  | _, nan => false
  | inf s, inf t => s && !t
  | inf s, finite _ _ => s
  | finite _ _, inf t => !t
  | finite s x, finite t y => decide (number s x < number t y)

def equal : FloatDatum → FloatDatum → Bool
  | inf s, inf t => s == t
  | finite s x, finite t y => decide (number s x = number t y)
  | _, _ => false

/-- A NaN has no sign. -/
def sign : FloatDatum → Bool
  | nan => false
  | inf s => s
  | finite s _ => s

/-- The magnitude. -/
def size : FloatDatum → WithTop ℚ
  | nan => ⊤
  | inf _ => ⊤
  | finite _ x => x

variable {d e : FloatDatum}

theorem less_of_isNaN (h : d.isNaN = true ∨ e.isNaN = true) : d.less e = false := by
  rcases h with h | h
  · cases d with
    | nan => rfl
    | inf s => cases h
    | finite s x => cases h
  · cases e with
    | nan => cases d <;> rfl
    | inf s => cases h
    | finite s x => cases h

theorem equal_of_isNaN (h : d.isNaN = true ∨ e.isNaN = true) : d.equal e = false := by
  rcases h with h | h
  · cases d with
    | nan => rfl
    | inf s => cases h
    | finite s x => cases h
  · cases e with
    | nan => cases d <;> rfl
    | inf s => cases h
    | finite s x => cases h

theorem less_asymm (h : d.less e = true) : e.less d = false := by
  cases d with
  | nan => cases h
  | inf s =>
    cases e with
    | nan => rfl
    | inf t => cases s <;> cases t <;> simp_all [less]
    | finite t y => cases s <;> simp_all [less]
  | finite s x =>
    cases e with
    | nan => rfl
    | inf t => cases t <;> simp_all [less]
    | finite t y =>
      rw [less, decide_eq_true_iff] at h
      exact decide_eq_false h.not_gt

section

variable (hd : d.Nonneg) (he : e.Nonneg) (hdn : d.isNaN = false) (hen : e.isNaN = false)

include hd he hdn hen

/-- A number is less than another one if its sign says so, or else its magnitude. -/
theorem less_iff : d.less e = true ↔
    if e.sign then d.sign = true ∧ e.size < d.size
    else if d.sign then ¬(d.size = 0 ∧ e.size = 0)
    else d.size < e.size := by
  cases d with
  | nan => cases hdn
  | inf s =>
    cases e with
    | nan => cases hen
    | inf t => cases s <;> cases t <;> simp [less, sign, size]
    | finite t y => cases s <;> cases t <;> simp [less, sign, size]
  | finite s x =>
    cases e with
    | nan => cases hen
    | inf t => cases s <;> cases t <;> simp [less, sign, size]
    | finite t y =>
      have hx : 0 ≤ x := hd
      have hy : 0 ≤ y := he
      cases s <;> cases t <;> simp [less, sign, size, number]
      · linarith
      · constructor
        · rintro h rfl rfl
          simp at h
        · intro h
          by_contra hle
          have hx0 : x = 0 := by linarith
          exact h hx0 (by linarith)

theorem equal_iff :
    d.equal e = true ↔ d.size = e.size ∧ (d.sign = e.sign ∨ d.size = 0) := by
  cases d with
  | nan => cases hdn
  | inf s =>
    cases e with
    | nan => cases hen
    | inf t => cases s <;> cases t <;> simp [equal, sign, size]
    | finite t y => cases s <;> cases t <;> simp [equal, sign, size]
  | finite s x =>
    cases e with
    | nan => cases hen
    | inf t => cases s <;> cases t <;> simp [equal, sign, size]
    | finite t y =>
      have hx : 0 ≤ x := hd
      have hy : 0 ≤ y := he
      cases s <;> cases t <;> simp [equal, sign, size, number]
      · constructor
        · intro h
          exact ⟨by linarith, by linarith⟩
        · rintro ⟨h, h0⟩
          linarith
      · constructor
        · intro h
          exact ⟨by linarith, by linarith⟩
        · rintro ⟨h, h0⟩
          linarith

end

end FloatDatum

end RiscvSoc
