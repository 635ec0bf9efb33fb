import Mathlib.Data.Int.Bitwise
import Mathlib.Data.Nat.Bitwise
import Mathlib.Data.Nat.Digits.Defs
import Mathlib.Data.Set.Lattice

/-!
# Cubes of binary words

What two-level logic minimisation is about: a cube fixes some bits of a word and leaves the others
free. It is given by a value and a mask of the free bits, and the value is zero there.

Two cubes with the same mask whose values differ in one bit make up one cube with that bit free. A
minimiser that finds such pairs by subtracting values has to know that the difference is a bit of
one and not of the other. Counting ones tells it: adding `2 ^ k` adds a one only where there was
none (`bitCount_add_two_pow_le`).
-/

namespace RiscvSoc

namespace Bits

/-! ### Cubes -/

/-- The words that agree with `v` at every bit outside `m`. -/
def cube (v m : ℕ) : Set ℕ := {x | ∀ i, m.testBit i = false → x.testBit i = v.testBit i}

theorem mem_cube {v m x : ℕ} :
    x ∈ cube v m ↔ ∀ i, m.testBit i = false → x.testBit i = v.testBit i := Iff.rfl

theorem self_mem_cube (v m : ℕ) : v ∈ cube v m := fun _ _ => rfl

variable {v m v' m' : ℕ} {u k : ℕ}

theorem cube_subset
    (h : ∀ i, m'.testBit i = false → m.testBit i = false ∧ v.testBit i = v'.testBit i) :
    cube v m ⊆ cube v' m' :=
  fun _ hx i hi => (hx i (h i hi).1).trans (h i hi).2

/-- Two cubes meet as soon as no bit that both fix tells them apart. -/
theorem cube_inter_nonempty_iff (hv : v &&& m = 0) (hv' : v' &&& m' = 0) :
    (cube v m ∩ cube v' m').Nonempty ↔
      ∀ i, m.testBit i = false → m'.testBit i = false → v.testBit i = v'.testBit i := by
  constructor
  · rintro ⟨x, hx, hx'⟩ i hi hi'
    exact (hx i hi).symm.trans (hx' i hi')
  · intro h
    have hfree : ∀ i, (v.testBit i && m.testBit i) = false := fun i => by
      rw [← Nat.testBit_and, hv, Nat.zero_testBit]
    have hfree' : ∀ i, (v'.testBit i && m'.testBit i) = false := fun i => by
      rw [← Nat.testBit_and, hv', Nat.zero_testBit]
    refine ⟨v ||| v', fun i hi => ?_, fun i hi => ?_⟩
    · rw [Nat.testBit_or]
      cases hm' : m'.testBit i
      · rw [h i hi hm', Bool.or_self]
      · have := hfree' i
        rw [hm', Bool.and_true] at this
        rw [this, Bool.or_false]
    · rw [Nat.testBit_or]
      cases hm : m.testBit i
      · rw [h i hm hi, Bool.or_self]
      · have := hfree i
        rw [hm, Bool.and_true] at this
        rw [this, Bool.false_or]

/-- Freeing a bit of a cube joins it with the cube that has the other value there. -/
theorem cube_or_two_pow {v m k : ℕ} (hk : v.testBit k = false) :
    cube v (m ||| 2 ^ k) = cube v m ∪ cube (v ||| 2 ^ k) m := by
  have hbit : ∀ i, (2 ^ k).testBit i = decide (k = i) := fun i => Nat.testBit_two_pow
  apply Set.eq_of_subset_of_subset
  · intro x hx
    have hother : ∀ i, i ≠ k → m.testBit i = false → x.testBit i = v.testBit i := by
      intro i hi hm
      refine hx i ?_
      rw [Nat.testBit_or, hbit, hm, Bool.false_or, decide_eq_false (Ne.symm hi)]
    cases hxk : x.testBit k
    · refine .inl fun i hm => ?_
      by_cases hi : i = k
      · rw [hi, hxk, hk]
      · exact hother i hi hm
    · refine .inr fun i hm => ?_
      by_cases hi : i = k
      · rw [hi, hxk, Nat.testBit_or, hbit, decide_eq_true rfl, Bool.or_true]
      · rw [hother i hi hm, Nat.testBit_or, hbit, decide_eq_false (Ne.symm hi), Bool.or_false]
  · refine Set.union_subset (cube_subset fun i hi => ?_) (cube_subset fun i hi => ?_)
    · rw [Nat.testBit_or, Bool.or_eq_false_iff] at hi
      exact ⟨hi.1, rfl⟩
    · rw [Nat.testBit_or, Bool.or_eq_false_iff] at hi
      rw [Nat.testBit_or, hi.2, Bool.or_false]
      exact ⟨hi.1, rfl⟩

/-! ### Single bits -/

/-- Integers are told apart by the bits of their two's complement. -/
theorem int_eq_of_testBit {x y : ℤ} (h : ∀ i, x.testBit i = y.testBit i) : x = y := by
  have hlow (n i : ℕ) : n.testBit (n + i) = false :=
    Nat.testBit_lt_two_pow (n.lt_two_pow_self.trans_le (Nat.pow_le_pow_right two_pos (by omega)))
  -- A number and a negative one differ where both have nothing but sign bits.
  have hsign (n p : ℕ) (hnp : ∀ i, n.testBit i = !p.testBit i) : False := by
    have hbit := hnp (n + p)
    rw [hlow, Nat.add_comm, hlow] at hbit
    cases hbit
  cases x with
  | ofNat n =>
    cases y with
    | ofNat p => exact congrArg Int.ofNat (Nat.eq_of_testBit_eq h)
    | negSucc p => exact (hsign n p h).elim
  | negSucc n =>
    cases y with
    | ofNat p => exact (hsign p n fun i => (h i).symm).elim
    | negSucc p =>
      exact congrArg Int.negSucc (Nat.eq_of_testBit_eq fun i => Bool.not_inj (h i))

theorem int_eq_zero_iff {z : ℤ} : z = 0 ↔ ∀ i, z.testBit i = false :=
  ⟨fun h i => h ▸ Nat.zero_testBit i, fun h => int_eq_of_testBit fun i =>
    (h i).trans (Nat.zero_testBit i).symm⟩

theorem add_two_pow_of_testBit (h : u.testBit k = false) :
    u + 2 ^ k = u ||| 2 ^ k := by
  induction k generalizing u with
  | zero =>
    have heven : u % 2 = 0 := by simpa [Nat.testBit_zero] using h
    refine Nat.eq_of_testBit_eq fun i => ?_
    cases i with
    | zero =>
      rw [Nat.testBit_or, pow_zero, Nat.testBit_zero, Nat.testBit_zero, Nat.testBit_zero]
      simp [show (u + 1) % 2 = 1 by omega]
    | succ i =>
      rw [Nat.testBit_or, pow_zero, Nat.testBit_add_one, Nat.testBit_add_one u,
        Nat.testBit_add_one 1]
      simp [show (u + 1) / 2 = u / 2 by omega]
  | succ k ih =>
    have hhalf := ih (u := u / 2) (by rwa [← Nat.testBit_add_one])
    refine Nat.eq_of_testBit_eq fun i => ?_
    cases i with
    | zero =>
      rw [Nat.testBit_or, Nat.testBit_zero, Nat.testBit_zero, Nat.testBit_zero,
        show (u + 2 ^ (k + 1)) % 2 = u % 2 by omega, show 2 ^ (k + 1) % 2 = 0 by omega]
      simp
    | succ i =>
      rw [Nat.testBit_or, Nat.testBit_add_one, Nat.testBit_add_one u, Nat.testBit_add_one (2 ^ _),
        ← Nat.testBit_or, show (u + 2 ^ (k + 1)) / 2 = u / 2 + 2 ^ k by omega,
        show 2 ^ (k + 1) / 2 = 2 ^ k by omega, hhalf]

theorem ldiff_two_pow (h : u.testBit k = true) :
    (u.ldiff (2 ^ k)).testBit k = false ∧ u.ldiff (2 ^ k) + 2 ^ k = u := by
  have hfree : (u.ldiff (2 ^ k)).testBit k = false := by simp [Nat.testBit_ldiff]
  refine ⟨hfree, ?_⟩
  rw [add_two_pow_of_testBit hfree]
  refine Nat.eq_of_testBit_eq fun i => ?_
  rw [Nat.testBit_or, Nat.testBit_ldiff, Nat.testBit_two_pow]
  by_cases hi : k = i
  · simp [← hi, h]
  · simp [hi]

/-! ### Counting ones -/

/-- The number of ones of a word. -/
def bitCount (n : ℕ) : ℕ := (Nat.digits 2 n).sum

theorem bitCount_eq (n : ℕ) : bitCount n = n % 2 + bitCount (n / 2) := by
  rcases Nat.eq_zero_or_pos n with rfl | hn
  · rfl
  · rw [bitCount, Nat.digits_def' one_lt_two hn, List.sum_cons, bitCount]

theorem bitCount_succ_le (n : ℕ) : bitCount (n + 1) ≤ bitCount n + 1 := by
  induction n using Nat.strong_induction_on with
  | _ n ih =>
    rw [bitCount_eq (n + 1), bitCount_eq n]
    rcases Nat.mod_two_eq_zero_or_one n with hn | hn
    · rw [show (n + 1) / 2 = n / 2 by omega]
      omega
    · have := ih (n / 2) (by omega)
      rw [show (n + 1) / 2 = n / 2 + 1 by omega]
      omega

theorem bitCount_add_two_pow_le (h : u.testBit k = true) :
    bitCount (u + 2 ^ k) ≤ bitCount u := by
  induction k generalizing u with
  | zero =>
    have hodd : u % 2 = 1 := by simpa [Nat.testBit_zero] using h
    have := bitCount_succ_le (u / 2)
    rw [pow_zero, bitCount_eq (u + 1), bitCount_eq u, show (u + 1) / 2 = u / 2 + 1 by omega]
    omega
  | succ k ih =>
    have := ih (u := u / 2) (by rwa [← Nat.testBit_add_one])
    rw [bitCount_eq (u + _), bitCount_eq u, show (u + 2 ^ (k + 1)) / 2 = u / 2 + 2 ^ k by omega]
    omega

theorem testBit_eq_false_of_bitCount (h : bitCount (u + 2 ^ k) = bitCount u + 1) :
    u.testBit k = false := by
  by_contra hk
  have := bitCount_add_two_pow_le (Bool.eq_true_of_not_eq_false hk)
  omega

theorem bitCount_add_two_pow (h : u.testBit k = false) :
    bitCount (u + 2 ^ k) = bitCount u + 1 := by
  induction k generalizing u with
  | zero =>
    have heven : u % 2 = 0 := by simpa [Nat.testBit_zero] using h
    rw [pow_zero, bitCount_eq (u + 1), bitCount_eq u, show (u + 1) / 2 = u / 2 by omega]
    omega
  | succ k ih =>
    have := ih (u := u / 2) (by rwa [← Nat.testBit_add_one])
    rw [bitCount_eq (u + _), bitCount_eq u, show (u + 2 ^ (k + 1)) / 2 = u / 2 + 2 ^ k by omega]
    omega

theorem bitCount_le {n w : ℕ} (h : n < 2 ^ w) : bitCount n ≤ w := by
  induction w generalizing n with
  | zero =>
    rw [Nat.lt_one_iff.mp h]
    exact Nat.zero_le _
  | succ w ih =>
    have := ih (n := n / 2) (by omega)
    rw [bitCount_eq]
    omega

end Bits

end RiscvSoc
