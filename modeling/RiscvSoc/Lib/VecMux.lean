import RiscvSoc.Lib.Bits
import Mathlib.Data.List.OfFn

/-!
# Reading and writing a vector of registers

A vector is read through a tree of multiplexers, one level for each bit of the address, and written
at the place whose one-hot bit is set. An address beyond the end is cut to the bits the tree has: a
read then gives what the tree makes of it, a write goes nowhere.
-/

namespace RiscvSoc

namespace VecMux

variable {α : Type} {n : ℕ}

/-- One level: of each two neighbours one is left, and an element without a neighbour stays. -/
def level (bit : Bool) : List α → List α
  | x :: y :: l => (if bit then y else x) :: level bit l
  | l => l

/-- The levels from the one the lowest address bit chooses at. -/
def tree : ℕ → ℕ → List α → List α
  | 0, _, l => l
  | w + 1, addr, l => tree w (addr / 2) (level (addr.testBit 0) l)

/-- What address `addr` reads. -/
def read [NeZero n] (v : Fin n → α) (addr : ℕ) : α :=
  (tree (Bits.log2Up n) addr (List.ofFn v)).head?.getD (v 0)

def write (v : Fin n → α) (addr : ℕ) (x : α) : Fin n → α := fun k =>
  if k.val = addr % 2 ^ Bits.log2Up n then x else v k

theorem length_level (bit : Bool) (l : List α) : (level bit l).length = (l.length + 1) / 2 := by
  induction l using level.induct with
  | case1 x y l ih =>
    rw [level, List.length_cons, ih]
    simp only [List.length_cons]
    omega
  | case2 l h =>
    match l with
    | [] => simp [level]
    | [x] => simp [level]
    | x :: y :: l => exact (h x y l rfl).elim

theorem getElem?_level (bit : Bool) (l : List α) (k : ℕ) (h : 2 * k + bit.toNat < l.length) :
    (level bit l)[k]? = l[2 * k + bit.toNat]? := by
  induction l using level.induct generalizing k with
  | case1 x y l ih =>
    rw [level]
    cases k with
    | zero => cases bit <;> rfl
    | succ k =>
      rw [List.length_cons, List.length_cons] at h
      rw [List.getElem?_cons_succ, ih k (by omega),
        show 2 * (k + 1) + bit.toNat = 2 * k + bit.toNat + 1 + 1 by omega]
      rfl
  | case2 l hl =>
    match l, hl with
    | [], _ => exact absurd h (Nat.not_lt_zero _)
    | [x], _ =>
      have hzero : k = 0 ∧ bit = false := by
        cases bit <;> simp at h ⊢
        omega
      obtain ⟨rfl, rfl⟩ := hzero
      rfl
    | x :: y :: l, hl => exact (hl x y l rfl).elim

theorem head?_tree (w addr : ℕ) (l : List α) (hlt : addr < l.length) (hlen : l.length ≤ 2 ^ w) :
    (tree w addr l).head? = l[addr]? := by
  induction w generalizing addr l with
  | zero =>
    have haddr : addr = 0 := by omega
    subst haddr
    exact List.head?_eq_getElem?
  | succ w ih =>
    have hbit : 2 * (addr / 2) + (addr.testBit 0).toNat = addr := by
      rw [Nat.testBit_zero]
      rcases Nat.mod_two_eq_zero_or_one addr with h | h <;> simp [h] <;> omega
    have hlevel := length_level (addr.testBit 0) l
    rw [pow_succ] at hlen
    rw [tree, ih _ _ (by omega) (by omega), getElem?_level _ _ _ (by omega), hbit]

variable (v : Fin n → α)

theorem read_eq [NeZero n] (k : Fin n) : read v k = v k := by
  rw [read, head?_tree _ _ _ (by simp) ((List.length_ofFn (f := v)).trans_le
    (Bits.le_two_pow_log2Up n))]
  simp

theorem write_eq (k l : Fin n) (x : α) :
    write v k x l = if l = k then x else v l := by
  rw [write, Nat.mod_eq_of_lt (k.isLt.trans_le (Bits.le_two_pow_log2Up n))]
  exact if_congr Fin.ext_iff.symm rfl rfl

theorem read_write [NeZero n] {addr k : ℕ} (haddr : addr < n) (hk : k < n)
    (x : α) : read (write v addr x) k = if k = addr then x else read v k := by
  have hread := read_eq (write v addr x) ⟨k, hk⟩
  rw [write_eq v ⟨addr, haddr⟩ ⟨k, hk⟩ x] at hread
  rw [read_eq v ⟨k, hk⟩]
  exact hread.trans (if_congr Fin.ext_iff rfl rfl)

theorem write_of_le {addr : ℕ} (h : n ≤ addr % 2 ^ Bits.log2Up n) (x : α) :
    write v addr x = v := by
  funext k
  exact if_neg (k.isLt.trans_le h).ne

end VecMux

end RiscvSoc
