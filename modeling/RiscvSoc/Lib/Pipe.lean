import Mathlib.Data.Nat.Notation
import Mathlib.Tactic.Common

/-!
# Delay lines

A valid bit travels through a chain of registers, one register a cycle, and what it announces
travels with it. A register keeps its content while nothing valid comes in.
-/

namespace RiscvSoc

variable {α : Type}

structure ValidIO (α : Type) where
  valid : Bool
  bits : α

/-- A register that is loaded when something valid comes in. -/
def ValidIO.load (r enq : ValidIO α) : ValidIO α where
  valid := enq.valid
  bits := if enq.valid then enq.bits else r.bits

theorem ValidIO.load_of_valid {r enq : ValidIO α} (h : enq.valid = true) :
    (r.load enq).valid = true ∧ (r.load enq).bits = enq.bits :=
  ⟨h, if_pos h⟩

namespace Pipe

/-- The registers in the next cycle; the first one is loaded from outside. -/
def next (enq : ValidIO α) (r : ℕ → ValidIO α) : ℕ → ValidIO α
  | 0 => (r 0).load enq
  | k + 1 => (r (k + 1)).load (r k)

variable (st : ℕ → ℕ → ValidIO α) (enq : ℕ → ValidIO α)

/-- **A delay line delivers what enters.** -/
theorem delivers (h : ∀ t, st (t + 1) = next (enq t) (st t)) {t : ℕ}
    (hvalid : (enq t).valid = true) (k : ℕ) :
    (st (t + 1 + k) k).valid = true ∧ (st (t + 1 + k) k).bits = (enq t).bits := by
  induction k with
  | zero =>
    rw [Nat.add_zero, h t]
    exact ValidIO.load_of_valid hvalid
  | succ k ih =>
    rw [← Nat.add_assoc, h (t + 1 + k)]
    exact ⟨ih.1, (if_pos ih.1).trans ih.2⟩

end Pipe

/-! ### Without valid bits -/

namespace ShiftRegister

/-- The registers in the next cycle; the first one is loaded from outside when it is enabled. -/
def next (en : Bool) (x : α) (r : ℕ → α) : ℕ → α
  | 0 => if en then x else r 0
  | k + 1 => r k

theorem delivers {st : ℕ → ℕ → α} {en : ℕ → Bool} {x : ℕ → α}
    (h : ∀ t, st (t + 1) = next (en t) (x t) (st t)) {t : ℕ} (hen : en t = true) (k : ℕ) :
    st (t + 1 + k) k = x t := by
  induction k with
  | zero =>
    rw [Nat.add_zero, h t]
    exact if_pos hen
  | succ k ih =>
    rw [← Nat.add_assoc, h (t + 1 + k)]
    exact ih

end ShiftRegister

end RiscvSoc
