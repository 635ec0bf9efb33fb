import Mathlib.Data.Nat.Log
import Mathlib.Data.Int.ModEq
import Mathlib.Tactic.Ring
import Mathlib.Tactic.Linarith
import Mathlib.Tactic.LinearCombination

/-!
# Unsigned words as numbers

The hardware operators the models are written in, on plain natural numbers: slices,
concatenation, wrap-around and the width functions. A register of width `n` is a natural
number that happens to be below `2 ^ n`; the bound is a hypothesis of the theorems that need
it, never part of a definition.

Nothing here knows about any particular circuit.
-/

namespace RiscvSoc

namespace Bits

/-! ### Slices and concatenation -/

/-- Bits `hi … lo` of `x`. An inverted slice is the zero-width word. -/
def bits (x hi lo : ℕ) : ℕ := x / 2 ^ lo % 2 ^ (hi + 1 - lo)

/-- `a` followed by the `n`-bit word `b`. -/
def cat (a n b : ℕ) : ℕ := a * 2 ^ n + b

theorem bits_lt (x hi lo : ℕ) : bits x hi lo < 2 ^ (hi + 1 - lo) :=
  Nat.mod_lt _ (Nat.two_pow_pos _)

theorem bits_zero_right (x hi : ℕ) : bits x hi 0 = x % 2 ^ (hi + 1) := by
  simp [bits]

variable {n : ℕ}

/-- The low `n` bits, for a positive width written as the source writes it. -/
theorem bits_low (hn : 0 < n) (x : ℕ) : bits x (n - 1) 0 = x % 2 ^ n := by
  rw [bits_zero_right, Nat.sub_add_cancel hn]

theorem bits_of_lt {x hi lo : ℕ} (h : x < 2 ^ (hi + 1)) : bits x hi lo = x / 2 ^ lo := by
  rcases Nat.lt_or_ge hi lo with hlo | hlo
  · have hx : x < 2 ^ lo := h.trans_le (Nat.pow_le_pow_right two_pos hlo)
    simp [bits, Nat.div_eq_of_lt hx]
  · refine Nat.mod_eq_of_lt (Nat.div_lt_of_lt_mul ?_)
    rwa [← pow_add, show lo + (hi + 1 - lo) = hi + 1 by omega]

theorem cat_lt {a n b m : ℕ} (ha : a < 2 ^ m) (hb : b < 2 ^ n) : cat a n b < 2 ^ (m + n) := by
  calc cat a n b < a * 2 ^ n + 2 ^ n := by rw [cat]; omega
    _ = (a + 1) * 2 ^ n := by ring
    _ ≤ 2 ^ m * 2 ^ n := Nat.mul_le_mul_right _ ha
    _ = 2 ^ (m + n) := (pow_add ..).symm

theorem cat_div {a n b : ℕ} (hb : b < 2 ^ n) : cat a n b / 2 ^ n = a := by
  rw [cat, Nat.add_comm, Nat.add_mul_div_right _ _ (Nat.two_pow_pos n), Nat.div_eq_of_lt hb,
    Nat.zero_add]

theorem cat_mod {a n b : ℕ} (hb : b < 2 ^ n) : cat a n b % 2 ^ n = b := by
  rw [cat, Nat.add_comm, Nat.add_mul_mod_self_right, Nat.mod_eq_of_lt hb]

theorem cat_div_mod (x n : ℕ) : cat (x / 2 ^ n) n (x % 2 ^ n) = x := by
  rw [cat, Nat.mul_comm]
  exact Nat.div_add_mod x (2 ^ n)

/-- Ones or-ed into the low `p` bits. -/
theorem or_ones (n p : ℕ) : n ||| (2 ^ p - 1) = n / 2 ^ p * 2 ^ p + (2 ^ p - 1) := by
  have hlt : 2 ^ p - 1 < 2 ^ p := Nat.sub_one_lt (Nat.two_pow_pos p).ne'
  rw [Nat.mul_comm, Nat.two_pow_add_eq_or_of_lt hlt]
  refine Nat.eq_of_testBit_eq fun i => ?_
  rw [Nat.testBit_or, Nat.testBit_or, Nat.testBit_two_pow_sub_one, Nat.testBit_two_pow_mul,
    Nat.testBit_div_two_pow]
  by_cases h : i < p
  · rw [decide_eq_true h, Bool.or_true, Bool.or_true]
  · rw [decide_eq_false h, Bool.or_false, Bool.or_false, decide_eq_true (Nat.not_lt.mp h),
      Bool.true_and, Nat.sub_add_cancel (Nat.not_lt.mp h)]

/-! ### Two's complement -/

/-- The `n`-bit pattern of an integer. -/
def wrap (n : ℕ) (z : ℤ) : ℕ := (z % 2 ^ n).toNat

/-- The two's complement value of an `n`-bit pattern. -/
def signed (n x : ℕ) : ℤ := if x < 2 ^ (n - 1) then x else x - 2 ^ n

theorem wrap_cast (n : ℕ) (z : ℤ) : (wrap n z : ℤ) = z % 2 ^ n :=
  Int.toNat_of_nonneg (Int.emod_nonneg _ (by positivity))

theorem wrap_lt (n : ℕ) (z : ℤ) : wrap n z < 2 ^ n := by
  have h : (wrap n z : ℤ) < 2 ^ n := by
    rw [wrap_cast]
    exact Int.emod_lt_of_pos _ (by positivity)
  exact_mod_cast h

theorem wrap_natCast (n x : ℕ) : wrap n (x : ℤ) = x % 2 ^ n := by
  have h : (wrap n (x : ℤ) : ℤ) = ((x % 2 ^ n : ℕ) : ℤ) := by rw [wrap_cast]; push_cast; rfl
  exact_mod_cast h

theorem wrap_eq_iff {y z : ℤ} : wrap n y = wrap n z ↔ y ≡ z [ZMOD 2 ^ n] := by
  constructor
  · intro h
    have h' : (wrap n y : ℤ) = wrap n z := by rw [h]
    rwa [wrap_cast, wrap_cast] at h'
  · intro h
    rw [wrap, wrap, h]

/-- The pattern of an integer only depends on it modulo the word size. -/
theorem wrap_congr {y z : ℤ} (h : y ≡ z [ZMOD 2 ^ n]) : wrap n y = wrap n z :=
  wrap_eq_iff.mpr h

theorem wrap_modEq (n : ℕ) (z : ℤ) : (wrap n z : ℤ) ≡ z [ZMOD 2 ^ n] := by
  rw [wrap_cast]
  exact Int.mod_modEq _ _

theorem wrap_of_lt {n x : ℕ} (h : x < 2 ^ n) : wrap n (x : ℤ) = x := by
  rw [wrap_natCast, Nat.mod_eq_of_lt h]

/-- Truncating a pattern is wrapping to the smaller width. -/
theorem wrap_mod {m n : ℕ} (h : m ≤ n) (z : ℤ) : wrap n z % 2 ^ m = wrap m z := by
  rw [← wrap_natCast]
  refine wrap_congr ?_
  exact (wrap_modEq n z).of_dvd (pow_dvd_pow 2 h)

/-- Dropping low bits of a pattern drops them from the integer. -/
theorem wrap_div (m n : ℕ) (z : ℤ) : wrap (m + n) z / 2 ^ n = wrap m (z / 2 ^ n) := by
  have hpos : (0 : ℤ) < 2 ^ n := by positivity
  have h : ((wrap (m + n) z / 2 ^ n : ℕ) : ℤ) = wrap m (z / 2 ^ n) := by
    push_cast
    rw [wrap_cast, wrap_cast, pow_add, mul_comm ((2 : ℤ) ^ m)]
    have hz : z = 2 ^ n * (z / 2 ^ n) + z % 2 ^ n := (Int.mul_ediv_add_emod z _).symm
    have hlow0 := Int.emod_nonneg z hpos.ne'
    have hlow := Int.emod_lt_of_pos z hpos
    have hsplit : z % (2 ^ n * 2 ^ m) = 2 ^ n * (z / 2 ^ n % 2 ^ m) + z % 2 ^ n := by
      have hq : z / 2 ^ n = 2 ^ m * (z / 2 ^ n / 2 ^ m) + z / 2 ^ n % 2 ^ m :=
        (Int.mul_ediv_add_emod _ _).symm
      have hr0 := Int.emod_nonneg (z / 2 ^ n) (by positivity : (2 : ℤ) ^ m ≠ 0)
      have hr := Int.emod_lt_of_pos (z / 2 ^ n) (by positivity : (0 : ℤ) < 2 ^ m)
      have hnat : (((2 : ℤ) ^ n * 2 ^ m).natAbs : ℤ) = 2 ^ n * 2 ^ m := by
        rw [Int.natCast_natAbs, abs_of_pos (by positivity)]
      refine (Int.emod_eq_iff (by positivity)).mpr ⟨by positivity, ?_, ?_⟩
      · rw [hnat]
        nlinarith
      · exact ⟨-(z / 2 ^ n / 2 ^ m), by linear_combination -hz - 2 ^ n * hq⟩
    rw [hsplit, Int.add_comm, Int.add_mul_ediv_left _ _ hpos.ne', Int.ediv_eq_zero_of_lt hlow0 hlow,
      zero_add]
  exact_mod_cast h

/-- Gluing low bits to a pattern glues them to the integer. -/
theorem cat_wrap {m n b : ℕ} (hb : b < 2 ^ n) (z : ℤ) :
    cat (wrap m z) n b = wrap (m + n) (z * 2 ^ n + b) := by
  have hpos : (0 : ℤ) < 2 ^ n := by positivity
  have hb' : (b : ℤ) < 2 ^ n := by exact_mod_cast hb
  have hmod : (z * 2 ^ n + b) % 2 ^ n = b := by
    rw [add_comm, Int.add_mul_emod_self_right, Int.emod_eq_of_lt (Int.natCast_nonneg b) hb']
  have hdiv : (z * 2 ^ n + b) / 2 ^ n = z := by
    rw [add_comm, Int.add_mul_ediv_right _ _ hpos.ne',
      Int.ediv_eq_zero_of_lt (Int.natCast_nonneg b) hb', zero_add]
  rw [← cat_div_mod (wrap (m + n) (z * 2 ^ n + b)) n, wrap_div, hdiv,
    wrap_mod (Nat.le_add_left n m)]
  congr 1
  rw [wrap, hmod, Int.toNat_natCast]

theorem signed_of_lt {n x : ℕ} (h : x < 2 ^ (n - 1)) : signed n x = x := if_pos h

theorem signed_of_ge {n x : ℕ} (h : 2 ^ (n - 1) ≤ x) : signed n x = x - 2 ^ n :=
  if_neg (Nat.not_lt.mpr h)

theorem signed_modEq (n x : ℕ) : signed n x ≡ x [ZMOD 2 ^ n] := by
  rw [signed]
  split
  · rfl
  · exact Int.modEq_iff_dvd.mpr ⟨1, by ring⟩

theorem wrap_signed {n x : ℕ} (h : x < 2 ^ n) : wrap n (signed n x) = x := by
  rw [wrap_congr (signed_modEq n x), wrap_of_lt h]

theorem signed_lt {n x : ℕ} (hx : x < 2 ^ n) : signed n x < 2 ^ (n - 1) := by
  rw [signed]
  split
  · exact_mod_cast ‹_›
  · have hx' : (x : ℤ) < 2 ^ n := by exact_mod_cast hx
    have hpos : (0 : ℤ) < 2 ^ (n - 1) := by positivity
    omega

theorem neg_le_signed (hn : 0 < n) (x : ℕ) : -2 ^ (n - 1) ≤ signed n x := by
  have h2 : (2 : ℤ) ^ n = 2 * 2 ^ (n - 1) := by rw [← pow_succ', Nat.sub_add_cancel hn]
  have hpos : (0 : ℤ) < 2 ^ (n - 1) := by positivity
  rw [signed]
  split
  · omega
  · have hx : ((2 ^ (n - 1) : ℕ) : ℤ) ≤ x := by exact_mod_cast Nat.not_lt.mp ‹_›
    push_cast at hx
    omega

/-- A pattern reads back as the integer it came from, when that integer fits. -/
theorem signed_wrap (hn : 0 < n) {z : ℤ} (hlo : -2 ^ (n - 1) ≤ z) (hhi : z < 2 ^ (n - 1)) :
    signed n (wrap n z) = z := by
  have h2 : (2 : ℤ) ^ n = 2 * 2 ^ (n - 1) := by rw [← pow_succ', Nat.sub_add_cancel hn]
  have hlo' := neg_le_signed hn (wrap n z)
  have hhi' := signed_lt (wrap_lt n z)
  have hdvd : (2 : ℤ) ^ n ∣ z - signed n (wrap n z) :=
    Int.modEq_iff_dvd.mp ((signed_modEq n _).trans (wrap_modEq n z))
  rw [h2] at hdvd
  obtain ⟨k, hk⟩ := hdvd
  have hk0 : k = 0 := by
    have hpos : (0 : ℤ) < 2 ^ (n - 1) := by positivity
    nlinarith
  subst hk0
  linarith

/-! ### Widths and leading ones -/

/-- The number of bits of an index below `n`, never less than one. -/
def log2Up (n : ℕ) : ℕ := if n = 1 then 1 else Nat.clog 2 n

theorem le_two_pow_log2Up (n : ℕ) : n ≤ 2 ^ log2Up n := by
  rw [log2Up]
  split
  · omega
  · exact Nat.le_pow_clog Nat.one_lt_two n

/-- A word that has room for `k` values tells one from the other counts up to `k`. -/
theorem mod_two_pow_eq_one_iff {w k : ℕ} (hw : 1 < 2 ^ w) (hle : k ≤ 2 ^ w) :
    k % 2 ^ w = 1 ↔ k = 1 := by
  rcases Nat.lt_or_eq_of_le hle with hlt | heq
  · rw [Nat.mod_eq_of_lt hlt]
  · rw [← heq, Nat.mod_self]
    omega

theorem log2Up_eq {n k : ℕ} (hlo : 2 ^ k < n) (hhi : n ≤ 2 ^ (k + 1)) : log2Up n = k + 1 := by
  have hpos := Nat.two_pow_pos k
  rw [log2Up, if_neg (by omega)]
  exact le_antisymm ((Nat.clog_le_iff_le_pow Nat.one_lt_two).mpr hhi)
    (Nat.succ_le_of_lt ((Nat.lt_clog_iff_pow_lt Nat.one_lt_two).mpr hlo))

theorem ne_two_pow {n m : ℕ} (hlo : 2 ^ m < n) (hhi : n < 2 ^ (m + 1)) (k : ℕ) : n ≠ 2 ^ k := by
  rintro rfl
  rw [Nat.pow_lt_pow_iff_right Nat.one_lt_two] at hlo hhi
  omega

/-- The position of the leading one, and zero for the zero word. -/
def msb (x : ℕ) : ℕ := Nat.log 2 x

theorem lt_two_pow_msb (x : ℕ) : x < 2 ^ (msb x + 1) :=
  Nat.lt_pow_succ_log_self Nat.one_lt_two x

theorem two_pow_msb_le {x : ℕ} (h : x ≠ 0) : 2 ^ msb x ≤ x :=
  Nat.pow_log_le_self 2 h

theorem msb_mul_two_pow {x : ℕ} (h : x ≠ 0) (k : ℕ) : msb (x * 2 ^ k) = msb x + k := by
  induction k with
  | zero => rw [pow_zero, Nat.mul_one, Nat.add_zero]
  | succ k ih =>
    have hne : x * 2 ^ k ≠ 0 := Nat.mul_ne_zero h (Nat.two_pow_pos k).ne'
    rw [pow_succ, ← Nat.mul_assoc, msb, Nat.log_mul_base Nat.one_lt_two hne, ← msb, ih,
      Nat.add_assoc]

theorem msb_lt {x n : ℕ} (hn : 0 < n) (h : x < 2 ^ n) : msb x < n := by
  rcases Nat.eq_zero_or_pos x with rfl | hx
  · simpa [msb] using hn
  · exact Nat.log_lt_of_lt_pow hx.ne' h

end Bits

/-! ### Powers of two -/

/-- `isPow2`. -/
def isPow2 (n : ℕ) : Bool := decide (0 < n) && n &&& (n - 1) == 0

theorem eq_two_pow_of_isPow2 {n : ℕ} (h : isPow2 n = true) : ∃ k, n = 2 ^ k := by
  rw [isPow2, Bool.and_eq_true, decide_eq_true_eq, beq_iff_eq] at h
  exact (Nat.and_sub_one_eq_zero_iff_isPowerOfTwo h.1.ne').1 h.2

theorem two_pow_log2Up_of_isPow2 {n : ℕ} (h : isPow2 n = true) (hne : n ≠ 1) :
    2 ^ Bits.log2Up n = n := by
  obtain ⟨k, rfl⟩ := eq_two_pow_of_isPow2 h
  rw [Bits.log2Up, if_neg hne, Nat.clog_pow 2 k Nat.one_lt_two]

end RiscvSoc
