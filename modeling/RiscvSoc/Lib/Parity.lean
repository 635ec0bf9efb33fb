import Mathlib.Algebra.GroupWithZero.Nat
import Mathlib.Data.List.Basic
import Mathlib.Data.Nat.Bitwise
import Mathlib.Data.Nat.Log

/-!
# Parities

The exclusive or of a list of bits, and the number a list of bits stands for. A word in which one
bit is flipped differs from the word in every parity that counts the bit, and in no other; the
lemmas say so in the form in which parity checks use it.
-/

namespace RiscvSoc

/-- `xorR`, and `reduce (_^_)`. -/
def xorR (l : List Bool) : Bool := l.foldr xor false

section XorR

variable {ι : Type} {l : List ι}

@[simp] theorem xorR_nil : xorR [] = false := rfl

@[simp] theorem xorR_cons (b : Bool) (l : List Bool) : xorR (b :: l) = xor b (xorR l) := rfl

theorem xorR_concat (l : List Bool) (b : Bool) : xorR (l ++ [b]) = xor (xorR l) b := by
  induction l with
  | nil => simp
  | cons a l ih => rw [List.cons_append, xorR_cons, xorR_cons, ih, Bool.xor_assoc]

/-- The parities of two words add up to the parity of their sum. -/
theorem xorR_map_xor (f g : ι → Bool) (l : List ι) :
    xorR (l.map fun j => xor (f j) (g j)) = xor (xorR (l.map f)) (xorR (l.map g)) := by
  induction l with
  | nil => rfl
  | cons a l ih =>
    rw [List.map_cons, List.map_cons, List.map_cons, xorR_cons, xorR_cons, xorR_cons, ih]
    simp only [Bool.xor_assoc, Bool.xor_left_comm]

theorem xorR_map_false {f : ι → Bool} (h : ∀ j ∈ l, f j = false) : xorR (l.map f) = false := by
  induction l with
  | nil => rfl
  | cons a l ih =>
    rw [List.map_cons, xorR_cons, h a List.mem_cons_self, Bool.false_xor]
    exact ih fun j hj => h j (List.mem_cons_of_mem a hj)

theorem xorR_filter_map (p f : ι → Bool) (l : List ι) :
    xorR ((l.filter p).map f) = xorR (l.map fun j => p j && f j) := by
  induction l with
  | nil => rfl
  | cons a l ih =>
    rw [List.map_cons, xorR_cons, List.filter_cons]
    cases p a with
    | false => rw [if_neg (by simp), Bool.false_and, Bool.false_xor, ih]
    | true => rw [if_pos rfl, List.map_cons, xorR_cons, Bool.true_and, ih]

theorem xorR_map_single [DecidableEq ι] (hl : l.Nodup) {a : ι} (ha : a ∈ l) (f : ι → Bool) :
    xorR (l.map fun j => decide (j = a) && f j) = f a := by
  induction l with
  | nil => cases ha
  | cons b l ih =>
    obtain ⟨hb, hl⟩ := List.nodup_cons.mp hl
    rw [List.map_cons, xorR_cons]
    rcases List.mem_cons.mp ha with rfl | ha
    · have hrest : xorR (l.map fun j => decide (j = a) && f j) = false := by
        refine xorR_map_false fun j hj => ?_
        have hne : j ≠ a := fun h => hb (h ▸ hj)
        rw [decide_eq_false hne, Bool.false_and]
      rw [hrest, decide_eq_true rfl, Bool.true_and, Bool.xor_false]
    · have hne : b ≠ a := fun h => hb (h ▸ ha)
      rw [decide_eq_false hne, Bool.false_and, Bool.false_xor, ih hl ha]

theorem xorR_map_eq [DecidableEq ι] (hl : l.Nodup) {a : ι} (ha : a ∈ l) (f : ι → Bool) :
    xorR (l.map f) = xor (xorR (l.map fun j => decide (j ≠ a) && f j)) (f a) := by
  rw [← xorR_map_single hl ha f, ← xorR_map_xor]
  refine congrArg xorR (List.map_congr_left fun j _ => ?_)
  by_cases h : j = a <;> simp [h]

end XorR

/-- `Vec(l).toBits`: the first bit is the lowest. -/
def vecToBits : List Bool → ℕ
  | [] => 0
  | b :: l => Nat.bit b (vecToBits l)

theorem testBit_vecToBits (l : List Bool) (i : ℕ) :
    (vecToBits l).testBit i = l[i]?.getD false := by
  induction l generalizing i with
  | nil => exact Nat.zero_testBit i
  | cons b l ih =>
    rw [vecToBits]
    cases i with
    | zero => rw [Nat.testBit_bit_zero]; rfl
    | succ i => rw [Nat.testBit_bit_succ, ih]; rfl

theorem vecToBits_lt (l : List Bool) : vecToBits l < 2 ^ l.length := by
  refine Nat.lt_pow_two_of_testBit _ fun i hi => ?_
  rw [testBit_vecToBits, List.getElem?_eq_none hi]
  rfl

theorem testBit_vecToBits_map {f : ℕ → Bool} {n i : ℕ} :
    (vecToBits ((List.range n).map f)).testBit i = (decide (i < n) && f i) := by
  rw [testBit_vecToBits, List.getElem?_map]
  by_cases h : i < n
  · rw [List.getElem?_range h, decide_eq_true h]
    rfl
  · rw [List.getElem?_eq_none (by simpa using h), decide_eq_false h]
    rfl

theorem vecToBits_testBit {x n : ℕ} (hx : x < 2 ^ n) :
    vecToBits ((List.range n).map x.testBit) = x := by
  refine Nat.eq_of_testBit_eq fun i => ?_
  rw [testBit_vecToBits_map]
  by_cases h : i < n
  · rw [decide_eq_true h, Bool.true_and]
  · rw [decide_eq_false h, Bool.false_and, Nat.testBit_lt_two_pow]
    exact hx.trans_le (Nat.pow_le_pow_right Nat.two_pos (not_lt.mp h))

end RiscvSoc
