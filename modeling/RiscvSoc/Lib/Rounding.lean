import Mathlib.Algebra.GroupWithZero.Nat
import Mathlib.Algebra.Order.Floor.Semifield
import Mathlib.Data.Int.Log
import Mathlib.Data.Nat.Bitwise
import Mathlib.Data.Rat.Floor
import Mathlib.Tactic.FieldSimp
import Mathlib.Tactic.Linarith
import Mathlib.Tactic.Positivity
import Mathlib.Tactic.Ring

/-!
# Rounding to a floating-point format

A binary format has a number of fraction bits and a range of exponents. A magnitude is rounded in
two steps: it is divided by the unit in the last place, which depends on its own exponent and is
never less than the one of the smallest normal numbers, and the quotient is rounded to an integer.
What comes out is too large for the format if it reaches the next power of two after the largest
exponent; the exponent of the magnitude itself says less than that.

A circuit has the magnitude as a significand and an exponent. It looks at three things: the last bit
that is kept, the bit after it, and whether anything is set in the bits after that one
(`RoundingMode.roundNat_div`).
-/

namespace RiscvSoc

/-! ### Rounding to an integer -/

inductive RoundingMode
  | nearestEven
  | minMag
  | min
  | max
  deriving DecidableEq

namespace RoundingMode

variable (mode : RoundingMode) (neg : Bool)

/-- Whether the magnitude `n + r`, where `r` is less than one, is rounded to `n + 1`. -/
def RoundsUp (n : ℕ) (r : ℚ) : Prop :=
  match mode with
  | .nearestEven => 1 / 2 < r ∨ r = 1 / 2 ∧ n % 2 = 1
  | .minMag => False
  | .min => neg = true ∧ r ≠ 0
  | .max => neg = false ∧ r ≠ 0

instance decidableRoundsUp (n : ℕ) (r : ℚ) : Decidable (mode.RoundsUp neg n r) :=
  match mode with
  | .nearestEven => inferInstanceAs (Decidable (_ ∨ _))
  | .minMag => inferInstanceAs (Decidable False)
  | .min => inferInstanceAs (Decidable (_ ∧ _))
  | .max => inferInstanceAs (Decidable (_ ∧ _))

/-- A magnitude rounded to an integer. -/
def roundNat (x : ℚ) : ℕ :=
  if mode.RoundsUp neg ⌊x⌋₊ (x - ⌊x⌋₊) then ⌊x⌋₊ + 1 else ⌊x⌋₊

/-- The same decision from the last bit that is kept, the next one, and whether the rest is not
zero. -/
def roundBit (lsb guard sticky : Bool) : Bool :=
  match mode with
  | .nearestEven => guard && sticky || lsb && guard
  | .minMag => false
  | .min => neg && (guard || sticky)
  | .max => !neg && (guard || sticky)

/-- A number without its `k + 1` low bits, rounded. -/
def roundShift (m k : ℕ) : ℕ :=
  m / 2 ^ (k + 1) +
    (mode.roundBit neg (m.testBit (k + 1)) (m.testBit k) (decide (m % 2 ^ k ≠ 0))).toNat

/-- Whether a magnitude that is too large becomes infinite. -/
def overflowsToInf : Bool :=
  match mode with
  | .nearestEven => true
  | .minMag => false
  | .min => neg
  | .max => !neg

variable {mode neg}

variable (m k : ℕ) {x : ℚ}

theorem mod_two_pow_succ_eq :
    m % 2 ^ (k + 1) = (m.testBit k).toNat * 2 ^ k + m % 2 ^ k := by
  rw [pow_succ, Nat.mod_mul, Nat.toNat_testBit, Nat.add_comm, Nat.mul_comm]

theorem roundsUp_iff : mode.RoundsUp neg (m / 2 ^ (k + 1))
    ((m % 2 ^ (k + 1) : ℕ) / 2 ^ (k + 1)) ↔
      mode.roundBit neg (m.testBit (k + 1)) (m.testBit k) (decide (m % 2 ^ k ≠ 0)) = true := by
  have hpos : (0 : ℚ) < 2 ^ (k + 1) := by positivity
  have hlow := Nat.mod_lt m (Nat.two_pow_pos k)
  have hsplit := mod_two_pow_succ_eq m k
  have hhalf : (1 / 2 : ℚ) = ((2 ^ k : ℕ) : ℚ) / 2 ^ (k + 1) := by
    rw [Nat.cast_pow, Nat.cast_ofNat, pow_succ]
    field_simp
  have hgt : (1 / 2 : ℚ) < (m % 2 ^ (k + 1) : ℕ) / 2 ^ (k + 1) ↔
      (m.testBit k && decide (m % 2 ^ k ≠ 0)) = true := by
    rw [hhalf, div_lt_div_iff_of_pos_right hpos, Nat.cast_lt, hsplit]
    cases m.testBit k <;> simp <;> omega
  have heq : ((m % 2 ^ (k + 1) : ℕ) : ℚ) / 2 ^ (k + 1) = 1 / 2 ↔
      (m.testBit k && decide (m % 2 ^ k = 0)) = true := by
    rw [hhalf, div_left_inj' hpos.ne', Nat.cast_inj, hsplit]
    cases m.testBit k with
    | false =>
      simp only [Bool.toNat_false, zero_mul, zero_add, Bool.false_and, Bool.false_eq_true,
        iff_false]
      exact hlow.ne
    | true => simp
  have hne : ((m % 2 ^ (k + 1) : ℕ) : ℚ) / 2 ^ (k + 1) ≠ 0 ↔
      (m.testBit k || decide (m % 2 ^ k ≠ 0)) = true := by
    rw [div_ne_zero_iff, and_iff_left hpos.ne', Nat.cast_ne_zero, hsplit]
    cases m.testBit k <;> simp
  cases mode with
  | nearestEven =>
    have hodd : m / 2 ^ (k + 1) % 2 = 1 ↔ m.testBit (k + 1) = true := by
      rw [Nat.testBit_eq_decide_div_mod_eq, decide_eq_true_eq]
    rw [RoundsUp, roundBit, hgt, heq, hodd]
    cases m.testBit k <;> cases m.testBit (k + 1) <;> simp
    exact (Classical.em _).symm
  | minMag => exact iff_of_false id Bool.false_ne_true
  | min => rw [RoundsUp, roundBit, hne, Bool.and_eq_true]
  | max => rw [RoundsUp, roundBit, hne, Bool.and_eq_true, Bool.not_eq_true']

/-- **Rounding looks at three things.** -/
theorem roundNat_div :
    mode.roundNat neg ((m : ℚ) / 2 ^ (k + 1)) = mode.roundShift neg m k := by
  have hfloor : ⌊(m : ℚ) / 2 ^ (k + 1)⌋₊ = m / 2 ^ (k + 1) := by
    exact_mod_cast Nat.floor_div_eq_div (K := ℚ) m (2 ^ (k + 1))
  have hrest : (m : ℚ) / 2 ^ (k + 1) - (m / 2 ^ (k + 1) : ℕ) =
      (m % 2 ^ (k + 1) : ℕ) / 2 ^ (k + 1) := by
    rw [eq_div_iff (by positivity), sub_mul, div_mul_cancel₀ _ (by positivity), sub_eq_iff_eq_add]
    exact_mod_cast (Nat.mod_add_div' m (2 ^ (k + 1))).symm
  rw [roundNat, hfloor, hrest, roundShift, if_congr (roundsUp_iff m k) rfl rfl]
  cases mode.roundBit neg (m.testBit (k + 1)) (m.testBit k) (decide (m % 2 ^ k ≠ 0)) <;> rfl

theorem le_roundShift : m / 2 ^ (k + 1) ≤ mode.roundShift neg m k :=
  Nat.le_add_right ..

theorem roundShift_le : mode.roundShift neg m k ≤ m / 2 ^ (k + 1) + 1 :=
  Nat.add_le_add_left (Bool.toNat_le _) _

/-- An integer that is no larger than the magnitude is no larger than what it is rounded to. -/
theorem le_roundNat {n : ℕ} (h : (n : ℚ) ≤ x) : n ≤ mode.roundNat neg x := by
  have hfloor : n ≤ ⌊x⌋₊ := Nat.le_floor h
  rw [roundNat]
  split
  · exact Nat.le_succ_of_le hfloor
  · exact hfloor

theorem roundNat_le {n : ℕ} (hx : 0 ≤ x) (h : x < n) : mode.roundNat neg x ≤ n := by
  have hfloor : ⌊x⌋₊ < n := (Nat.floor_lt hx).mpr h
  rw [roundNat]
  split
  · exact hfloor
  · exact hfloor.le

theorem roundNat_zero : mode.roundNat neg 0 = 0 := by
  rw [roundNat, Nat.floor_zero, Nat.cast_zero, sub_zero]
  refine if_neg fun hup => ?_
  cases mode with
  | nearestEven => rcases hup with hup | ⟨-, hup⟩ <;> norm_num at hup
  | minMag => exact hup
  | min => exact hup.2 rfl
  | max => exact hup.2 rfl

theorem roundNat_of_lt_one (hpos : 0 < x) (hlt : x < 1) : mode.roundNat neg x =
    (match mode with
      | .nearestEven => decide (1 / 2 < x)
      | .minMag => false
      | .min => neg
      | .max => !neg).toNat := by
  have hfloor : ⌊x⌋₊ = 0 := Nat.floor_eq_zero.mpr hlt
  rw [roundNat, hfloor, Nat.cast_zero, sub_zero]
  cases mode with
  | nearestEven =>
    by_cases hhalf : 1 / 2 < x
    · rw [decide_eq_true hhalf]
      exact if_pos (Or.inl hhalf)
    · rw [decide_eq_false hhalf]
      refine if_neg ?_
      rintro (habove | ⟨-, hodd⟩)
      · exact hhalf habove
      · omega
  | minMag => exact if_neg id
  | min =>
    cases neg with
    | false => exact if_neg fun hup => Bool.false_ne_true hup.1
    | true => exact if_pos ⟨rfl, hpos.ne'⟩
  | max =>
    cases neg with
    | false => exact if_pos ⟨rfl, hpos.ne'⟩
    | true => exact if_neg fun hup => Bool.false_ne_true hup.1.symm

/-- A significand of `k + f + 2` bits without its `k + 1` low bits has `f + 1` bits, and one more at
most. -/
theorem roundShift_bounds {m k f : ℕ} (hlo : 2 ^ (k + 1 + f) ≤ m) (hhi : m < 2 ^ (k + 1 + f + 1)) :
    2 ^ f ≤ mode.roundShift neg m k ∧ mode.roundShift neg m k ≤ 2 ^ (f + 1) := by
  have hdiv : 2 ^ f ≤ m / 2 ^ (k + 1) := by
    rwa [Nat.le_div_iff_mul_le (Nat.two_pow_pos _), ← pow_add, Nat.add_comm f]
  have hdiv' : m / 2 ^ (k + 1) < 2 ^ (f + 1) := by
    rwa [Nat.div_lt_iff_lt_mul (Nat.two_pow_pos _), ← pow_add, Nat.add_comm (f + 1),
      ← Nat.add_assoc]
  exact ⟨hdiv.trans (le_roundShift m k), (roundShift_le m k).trans hdiv'⟩

/-- Nothing is lost exactly if the bits that are dropped are zero. -/
theorem roundShift_mul_eq_iff :
    mode.roundShift neg m k * 2 ^ (k + 1) = m ↔ m % 2 ^ (k + 1) = 0 := by
  constructor
  · intro h
    rw [← h]
    exact Nat.mul_mod_left ..
  · intro h
    have hbits := mod_two_pow_succ_eq m k
    rw [h] at hbits
    have hguard : m.testBit k = false := by
      cases hg : m.testBit k with
      | false => rfl
      | true =>
        have hpos := Nat.two_pow_pos k
        rw [hg, Bool.toNat_true] at hbits
        omega
    have hsticky : m % 2 ^ k = 0 := by omega
    have hno : mode.roundBit neg (m.testBit (k + 1)) false (decide (m % 2 ^ k ≠ 0)) = false := by
      rw [hsticky]
      cases mode <;> cases neg <;> cases m.testBit (k + 1) <;> rfl
    rw [roundShift, hguard, hno, Bool.toNat_false, Nat.add_zero]
    exact Nat.div_mul_cancel (Nat.dvd_of_mod_eq_zero h)

/-- A number that is rounded up is less than what it is rounded to. -/
theorem lt_roundShift_mul_iff : m < mode.roundShift neg m k * 2 ^ (k + 1) ↔
    mode.roundBit neg (m.testBit (k + 1)) (m.testBit k) (decide (m % 2 ^ k ≠ 0)) = true := by
  have hdiv := Nat.div_add_mod' m (2 ^ (k + 1))
  have hmod := Nat.mod_lt m (Nat.two_pow_pos (k + 1))
  rw [roundShift]
  cases mode.roundBit neg (m.testBit (k + 1)) (m.testBit k) (decide (m % 2 ^ k ≠ 0)) with
  | true =>
    rw [Bool.toNat_true, Nat.succ_mul]
    exact iff_of_true (by omega) rfl
  | false =>
    rw [Bool.toNat_false, Nat.add_zero]
    exact iff_of_false (by omega) Bool.false_ne_true

theorem mod_ne_zero_of_lt {m k : ℕ} (h : m / 2 ^ (k + 1) < mode.roundShift neg m k) :
    m % 2 ^ (k + 1) ≠ 0 := by
  intro hzero
  have heq : mode.roundShift neg m k * 2 ^ (k + 1) = m := (roundShift_mul_eq_iff m k).mpr hzero
  have hdiv := Nat.mod_add_div' m (2 ^ (k + 1))
  have hlt := Nat.mul_lt_mul_of_pos_right h (Nat.two_pow_pos (k + 1))
  omega

/-- A magnitude that is rounded up past the largest number becomes infinite. -/
theorem overflowsToInf_of_lt {m k : ℕ} (h : m / 2 ^ (k + 1) < mode.roundShift neg m k) :
    mode.overflowsToInf neg = true := by
  cases mode with
  | nearestEven => rfl
  | minMag => exact absurd h (lt_irrefl _)
  | min =>
    cases neg with
    | false => exact absurd h (lt_irrefl _)
    | true => rfl
  | max =>
    cases neg with
    | false => rfl
    | true => exact absurd h (lt_irrefl _)

/-- A number of which nothing is kept, not even the bit after that. -/
theorem roundShift_of_lt {m k : ℕ} (hpos : 0 < m) (hlt : m < 2 ^ k) :
    mode.roundShift neg m k = (mode.roundBit neg false false true).toNat := by
  have hlt' : m < 2 ^ (k + 1) := hlt.trans (Nat.pow_lt_pow_succ Nat.one_lt_two)
  rw [roundShift, Nat.div_eq_of_lt hlt', Nat.zero_add, Nat.testBit_lt_two_pow hlt,
    Nat.testBit_lt_two_pow hlt', Nat.mod_eq_of_lt hlt, decide_eq_true hpos.ne']

end RoundingMode

/-! ### Formats -/

/-- A number of the extended number line, or none. -/
inductive FloatDatum
  | nan
  | inf (neg : Bool)
  /-- Zero has a sign too. -/
  | finite (neg : Bool) (mag : ℚ)
  deriving DecidableEq

structure FloatFormat where
  fracBits : ℕ
  /-- The exponents of the normal numbers. -/
  emin : ℤ
  emax : ℤ

/-- What an operation delivers. -/
structure FloatResult where
  datum : FloatDatum
  overflow : Bool
  inexact : Bool
  deriving DecidableEq

namespace FloatFormat

variable (f : FloatFormat) (mode : RoundingMode) (neg : Bool)

/-- The unit in the last place. -/
def ulp (x : ℚ) : ℚ := 2 ^ (max (Int.log 2 x) f.emin - f.fracBits)

/-- The magnitude rounded as if there were no largest exponent. -/
def roundMag (x : ℚ) : ℚ := mode.roundNat neg (x / f.ulp x) * f.ulp x

/-- The largest number of the format. -/
def maxFinite : ℚ := (2 ^ (f.fracBits + 1) - 1) * 2 ^ (f.emax - f.fracBits)

/-- A datum rounded to the format. -/
def round : FloatDatum → FloatResult
  | .nan => ⟨.nan, false, false⟩
  | .inf neg => ⟨.inf neg, false, false⟩
  | .finite neg x =>
    let r := f.roundMag mode neg x
    if 2 ^ (f.emax + 1) ≤ r then
      ⟨if mode.overflowsToInf neg then .inf neg else .finite neg f.maxFinite, true, true⟩
    else ⟨.finite neg r, false, decide (r ≠ x)⟩

variable {f mode neg}

theorem round_zero : f.round mode (.finite neg 0) = ⟨.finite neg 0, false, false⟩ := by
  have hzero : f.roundMag mode neg 0 = 0 := by
    rw [roundMag, zero_div, RoundingMode.roundNat_zero, Nat.cast_zero, zero_mul]
  have hno : ¬ (2 : ℚ) ^ (f.emax + 1) ≤ 0 := not_le.mpr (zpow_pos two_pos _)
  rw [round, hzero, if_neg hno]
  rfl

theorem round_of_lt {x : ℚ} (h : f.roundMag mode neg x < 2 ^ (f.emax + 1)) :
    f.round mode (.finite neg x) =
      ⟨.finite neg (f.roundMag mode neg x), false, decide (f.roundMag mode neg x ≠ x)⟩ :=
  if_neg (not_le.mpr h)

theorem round_of_le {x : ℚ} (h : 2 ^ (f.emax + 1) ≤ f.roundMag mode neg x) :
    f.round mode (.finite neg x) =
      ⟨if mode.overflowsToInf neg then .inf neg else .finite neg f.maxFinite, true, true⟩ :=
  if_pos h

/-- A significand of `w + 1` bits, or the next power of two, is a power of two or more exactly if
its exponent says so or it is that power. -/
theorem two_pow_le_significand_iff {n w : ℕ} (hlo : 2 ^ w ≤ n) (hhi : n ≤ 2 ^ (w + 1)) (e a : ℤ) :
    (2 : ℚ) ^ (a + 1) ≤ n * 2 ^ (e - w) ↔ a < e ∨ e = a ∧ n = 2 ^ (w + 1) := by
  have hscale : (0 : ℚ) < 2 ^ (e - w) := zpow_pos two_pos _
  have hbelow : (2 : ℚ) ^ e ≤ n * 2 ^ (e - w) := by
    calc (2 : ℚ) ^ e = (2 ^ w : ℕ) * 2 ^ (e - w) := by
          rw [Nat.cast_pow, Nat.cast_ofNat, ← zpow_natCast, ← zpow_add₀ two_ne_zero,
            add_sub_cancel]
      _ ≤ n * 2 ^ (e - w) := mul_le_mul_of_nonneg_right (Nat.cast_le.mpr hlo) hscale.le
  have habove : (2 : ℚ) ^ (e + 1) = (2 ^ (w + 1) : ℕ) * 2 ^ (e - w) := by
    rw [Nat.cast_pow, Nat.cast_ofNat, ← zpow_natCast, ← zpow_add₀ two_ne_zero]
    congr 1
    push_cast
    ring
  rcases lt_trichotomy e a with hlt | rfl | hgt
  · refine iff_of_false ?_ (by omega)
    rw [not_le]
    calc (n : ℚ) * 2 ^ (e - w) ≤ 2 ^ (e + 1) := by
          rw [habove]
          exact mul_le_mul_of_nonneg_right (Nat.cast_le.mpr hhi) hscale.le
      _ < 2 ^ (a + 1) := zpow_lt_zpow_right₀ one_lt_two (by omega)
  · rw [habove, mul_le_mul_iff_left₀ hscale, Nat.cast_le]
    omega
  · refine iff_of_true ?_ (Or.inl hgt)
    exact (zpow_le_zpow_right₀ one_le_two (by omega)).trans hbelow

/-- Two numbers that are given by their significands, in a common unit. -/
theorem mul_two_pow_eq {m n i j : ℕ} {a b s : ℤ} (h : (m : ℚ) * 2 ^ a = n * 2 ^ b)
    (ha : a + s = i) (hb : b + s = j) : m * 2 ^ i = n * 2 ^ j := by
  have hscale := congrArg (· * (2 : ℚ) ^ s) h
  simp only [mul_assoc, ← zpow_add₀ (two_ne_zero' ℚ), ha, hb, zpow_natCast] at hscale
  exact_mod_cast hscale

/-- The exponent of a number that is given by its significand. -/
theorem log_significand {m w : ℕ} (hlo : 2 ^ w ≤ m) (hhi : m < 2 ^ (w + 1)) (e : ℤ) :
    Int.log 2 ((m : ℚ) * 2 ^ (e - w)) = e := by
  have hlo' : (2 : ℚ) ^ (w : ℤ) ≤ m := by exact_mod_cast hlo
  have hhi' : (m : ℚ) < 2 ^ ((w : ℤ) + 1) := by exact_mod_cast hhi
  have hscale : (0 : ℚ) < 2 ^ (e - w) := zpow_pos two_pos _
  have hpos : 0 < (m : ℚ) * 2 ^ (e - w) :=
    mul_pos ((zpow_pos two_pos _).trans_le hlo') hscale
  have hbelow : (2 : ℚ) ^ e ≤ m * 2 ^ (e - w) := by
    calc (2 : ℚ) ^ e = 2 ^ (w : ℤ) * 2 ^ (e - w) := by
          rw [← zpow_add₀ two_ne_zero, add_sub_cancel]
      _ ≤ m * 2 ^ (e - w) := mul_le_mul_of_nonneg_right hlo' hscale.le
  have habove : (m : ℚ) * 2 ^ (e - w) < 2 ^ (e + 1) := by
    calc (m : ℚ) * 2 ^ (e - w) < 2 ^ ((w : ℤ) + 1) * 2 ^ (e - w) :=
          mul_lt_mul_of_pos_right hhi' hscale
      _ = 2 ^ (e + 1) := by
          rw [← zpow_add₀ two_ne_zero]
          congr 1
          ring
  refine le_antisymm ?_ ?_
  · have hlt := (Int.lt_zpow_iff_log_lt Nat.one_lt_two hpos).mp (by exact_mod_cast habove)
    exact Int.lt_add_one_iff.mp hlt
  · exact (Int.zpow_le_iff_le_log Nat.one_lt_two hpos).mp (by exact_mod_cast hbelow)

/-- **Rounding of a number that is given by its significand.** `t` is how far the number is below
the normal numbers. -/
theorem roundMag_eq {m w k t : ℕ} {e : ℤ} (hlo : 2 ^ w ≤ m) (hhi : m < 2 ^ (w + 1))
    (ht : max e f.emin = e + t) (hk : k + 1 + f.fracBits = w + t) :
    f.ulp (m * 2 ^ (e - w)) = 2 ^ (e + t - f.fracBits) ∧
      f.roundMag mode neg (m * 2 ^ (e - w)) =
        mode.roundShift neg m k * 2 ^ (e + t - f.fracBits) := by
  have hulp : f.ulp ((m : ℚ) * 2 ^ (e - w)) = 2 ^ (e + t - f.fracBits) := by
    rw [ulp, log_significand hlo hhi, ht]
  refine ⟨hulp, ?_⟩
  have hquot : (m : ℚ) * 2 ^ (e - w) / 2 ^ (e + t - f.fracBits) = m / 2 ^ (k + 1) := by
    rw [mul_div_assoc, ← zpow_sub₀ two_ne_zero, div_eq_mul_inv (m : ℚ), ← zpow_natCast, ← zpow_neg]
    congr 2
    push_cast
    omega
  rw [roundMag, hulp, hquot, RoundingMode.roundNat_div]

/-- What rounding delivers is a multiple of the smallest unit in the last place. -/
theorem exists_round_eq_mul (h : f.emin ≤ f.emax) {d : FloatDatum} {x : ℚ}
    (hx : (f.round mode d).datum = .finite neg x) :
    ∃ n : ℕ, x = n * 2 ^ (f.emin - f.fracBits) := by
  cases d with
  | nan => exact absurd hx (by simp [round])
  | inf neg' => exact absurd hx (by simp [round])
  | finite neg' y =>
    rw [round] at hx
    rcases le_or_gt ((2 : ℚ) ^ (f.emax + 1)) (f.roundMag mode neg' y) with hle | hlt
    · rw [if_pos hle] at hx
      have hmax : x = f.maxFinite := by
        cases hinf : mode.overflowsToInf neg' with
        | true => exact absurd hx (by simp [hinf])
        | false =>
          rw [hinf, if_neg (by simp), FloatDatum.finite.injEq] at hx
          exact hx.2.symm
      refine ⟨(2 ^ (f.fracBits + 1) - 1) * 2 ^ (f.emax - f.emin).toNat, ?_⟩
      have hexp : f.emax - f.fracBits = ((f.emax - f.emin).toNat : ℤ) + (f.emin - f.fracBits) := by
        omega
      rw [hmax, maxFinite, hexp, zpow_add₀ two_ne_zero, zpow_natCast, ← mul_assoc]
      push_cast [Nat.one_le_two_pow]
      rfl
    · rw [if_neg (not_le.mpr hlt), FloatDatum.finite.injEq] at hx
      have hexp : max (Int.log 2 y) f.emin - f.fracBits =
          ((max (Int.log 2 y) f.emin - f.emin).toNat : ℤ) + (f.emin - f.fracBits) := by
        omega
      refine ⟨mode.roundNat neg' (y / f.ulp y) * 2 ^ (max (Int.log 2 y) f.emin - f.emin).toNat, ?_⟩
      rw [← hx.2, roundMag, ulp, hexp, zpow_add₀ two_ne_zero, zpow_natCast, ← mul_assoc]
      push_cast
      rfl

end FloatFormat

end RiscvSoc
