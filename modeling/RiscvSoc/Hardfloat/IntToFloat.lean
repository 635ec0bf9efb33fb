import RiscvSoc.Hardfloat.FloatN

/-!
# Conversion of integers

`anyToRecodedFloatN`. A negative integer is negated in the full word; the magnitude is shifted until
its leading one is in front, so that the word is a significand. What is kept of it is rounded, and a
carry goes into the exponent. The word may be too short for the fraction; then zeros are appended.

A small format may have no exponent for an integer. The one that is too large is delivered with the
code of infinity.
-/

namespace RiscvSoc

open Bits

/-! ### Integer types -/

/-- The types of half a word and of a word. -/
inductive IntType
  | uint32
  | int32
  | uint64
  | int64
  deriving DecidableEq

/-- What a word of `2 ^ logWidth` bits stands for. -/
def IntType.value (t : IntType) {logWidth : ℕ} (word : BitVec (2 ^ logWidth)) : ℤ :=
  match t with
  | .uint32 => (word.toNat % 2 ^ (2 ^ logWidth / 2) : ℕ)
  | .int32 => signed (2 ^ logWidth / 2) (word.toNat % 2 ^ (2 ^ logWidth / 2))
  | .uint64 => word.toNat
  | .int64 => signed (2 ^ logWidth) word.toNat

/-! ### The conversion -/

namespace AnyToRecoded

variable (sigWidth expWidth : ℕ) {logWidth : ℕ} (word : BitVec (2 ^ logWidth))
  (roundingMode : RoundingMode) (typeOp : IntType)

def sign : Bool :=
  match typeOp with
  | .int32 => word.toNat.testBit (2 ^ logWidth / 2 - 1)
  | .int64 => word.toNat.testBit (2 ^ logWidth - 1)
  | .uint32 => false
  | .uint64 => false

def abs : ℕ :=
  if sign word typeOp then (2 ^ 2 ^ logWidth - word.toNat) % 2 ^ 2 ^ logWidth else word.toNat

def normIn : ℕ :=
  match typeOp with
  | .int64 => abs word typeOp
  | .uint64 => abs word typeOp
  | .int32 => bits (abs word typeOp) (2 ^ logWidth / 2 - 1) 0
  | .uint32 => bits (abs word typeOp) (2 ^ logWidth / 2 - 1) 0

def normCount : ℕ := Normalize.shift logWidth (normIn word typeOp)

def normOut : ℕ := normIn word typeOp <<< normCount word typeOp

def roundBits2 : Bool :=
  decide (sigWidth + 2 ≤ 2 ^ logWidth) &&
    (normOut word typeOp).testBit (2 ^ logWidth - sigWidth - 1)

def roundBits1 : Bool :=
  decide (sigWidth + 2 ≤ 2 ^ logWidth) &&
    (normOut word typeOp).testBit (2 ^ logWidth - sigWidth - 2)

def roundBits0 : Bool :=
  decide (sigWidth + 3 ≤ 2 ^ logWidth) &&
    decide (bits (normOut word typeOp) (2 ^ logWidth - sigWidth - 3) 0 ≠ 0)

def roundInexact : Bool := roundBits1 sigWidth word typeOp || roundBits0 sigWidth word typeOp

def round : Bool :=
  match roundingMode with
  | .nearestEven =>
    roundBits2 sigWidth word typeOp && roundBits1 sigWidth word typeOp ||
      roundBits1 sigWidth word typeOp && roundBits0 sigWidth word typeOp
  | .min => sign word typeOp && roundInexact sigWidth word typeOp
  | .max => !sign word typeOp && roundInexact sigWidth word typeOp
  | .minMag => false

def normUnrounded : ℕ :=
  if sigWidth + 1 ≤ 2 ^ logWidth then
    bits (normOut word typeOp) (2 ^ logWidth - 1) (2 ^ logWidth - sigWidth - 1)
  else cat (normOut word typeOp) (sigWidth + 1 - 2 ^ logWidth) 0

def normRounded : ℕ :=
  if round sigWidth word roundingMode typeOp then
    (normUnrounded sigWidth word typeOp + 1) % 2 ^ (sigWidth + 2)
  else normUnrounded sigWidth word typeOp

/-- `~norm_count`. -/
def expCounted : ℕ := 2 ^ logWidth - 1 - normCount word typeOp

def overflowUnrounded : Bool :=
  decide (expWidth - 2 < logWidth) && decide (2 ^ (expWidth - 2) ≤ expCounted word typeOp)

def expUnrounded : ℕ :=
  if expWidth - 2 < logWidth then bits (expCounted word typeOp) (expWidth - 3) 0
  else expCounted word typeOp

def expRounded : ℕ :=
  (expUnrounded expWidth word typeOp +
    ((normRounded sigWidth word roundingMode typeOp).testBit (sigWidth + 1)).toNat) %
      2 ^ (expWidth - 1)

def overflowRounded : Bool :=
  decide (2 ^ (expWidth - 2) ≤ 2 ^ logWidth) &&
    (expRounded sigWidth expWidth word roundingMode typeOp).testBit (expWidth - 2)

def exponent : ℕ :=
  cat ((normOut word typeOp).testBit (2 ^ logWidth - 1)).toNat (expWidth - 1)
    (if overflowUnrounded expWidth word typeOp then 2 ^ (expWidth - 2)
    else bits (expRounded sigWidth expWidth word roundingMode typeOp) (expWidth - 2) 0)

def overflow : Bool :=
  overflowUnrounded expWidth word typeOp ||
    overflowRounded sigWidth expWidth word roundingMode typeOp

def inexact : Bool :=
  roundInexact sigWidth word typeOp || overflow sigWidth expWidth word roundingMode typeOp

def out : RecFloat sigWidth expWidth where
  sign := sign word typeOp
  exp := BitVec.ofNat _ (exponent sigWidth expWidth word roundingMode typeOp)
  sig := BitVec.ofNat _ (bits (normRounded sigWidth word roundingMode typeOp) (sigWidth - 1) 0)

def exc : ExceptionFlags where
  invalid := false
  infinite := false
  overflow := overflow sigWidth expWidth word roundingMode typeOp
  underflow := false
  inexact := inexact sigWidth expWidth word roundingMode typeOp

/-! ### The magnitude -/

variable {sigWidth expWidth word roundingMode typeOp}

theorem half_eq (hlog : 0 < logWidth) : 2 * (2 ^ logWidth / 2) = 2 ^ logWidth := by
  rw [Nat.mul_div_cancel']
  exact dvd_pow_self 2 hlog.ne'

theorem half_pos (hlog : 0 < logWidth) : 0 < 2 ^ logWidth / 2 := by
  have hhalf := half_eq hlog
  have hpos := Nat.two_pow_pos logWidth
  omega

/-- The sign bit of a word is the sign of the number it stands for. -/
theorem testBit_eq_decide_signed {n x : ℕ} (hn : 0 < n) (hx : x < 2 ^ n) :
    x.testBit (n - 1) = decide (signed n x < 0) := by
  have hdouble : 2 ^ n = 2 * 2 ^ (n - 1) := by
    rw [← pow_succ', Nat.sub_add_cancel hn]
  rcases Nat.lt_or_ge x (2 ^ (n - 1)) with hlt | hge
  · rw [Nat.testBit_lt_two_pow hlt, signed_of_lt hlt, decide_eq_false (by omega)]
  · have hbit : x.testBit (n - 1) = true := by
      rw [Nat.testBit_eq_decide_div_mod_eq, Nat.div_eq_of_lt_le (by omega : 1 * 2 ^ (n - 1) ≤ x)
        (by omega)]
      rfl
    have hcast : (x : ℤ) < 2 ^ n := by exact_mod_cast hx
    rw [hbit, signed_of_ge hge, decide_eq_true (by omega)]

theorem natAbs_signed {n x : ℕ} (hx : x < 2 ^ n) : (signed n x).natAbs =
    if signed n x < 0 then 2 ^ n - x else x := by
  have hcast : (x : ℤ) < 2 ^ n := by exact_mod_cast hx
  rw [signed]
  split
  · rw [if_neg (by omega), Int.natAbs_natCast]
  · rw [if_pos (by omega)]
    zify [hx.le]
    rw [abs_of_neg (by omega)]
    ring

theorem sign_eq (hlog : 0 < logWidth) : sign word typeOp = decide (typeOp.value word < 0) := by
  have hpos := half_pos hlog
  have hmod : (word.toNat % 2 ^ (2 ^ logWidth / 2)).testBit (2 ^ logWidth / 2 - 1) =
      word.toNat.testBit (2 ^ logWidth / 2 - 1) := by
    rw [Nat.testBit_mod_two_pow, decide_eq_true (by omega), Bool.true_and]
  cases typeOp with
  | uint32 => exact (decide_eq_false (not_lt.mpr (Int.natCast_nonneg _))).symm
  | int32 =>
    rw [sign, ← hmod]
    exact testBit_eq_decide_signed hpos (Nat.mod_lt _ (Nat.two_pow_pos _))
  | uint64 => exact (decide_eq_false (not_lt.mpr (Int.natCast_nonneg _))).symm
  | int64 => exact testBit_eq_decide_signed (Nat.two_pow_pos _) word.isLt

theorem neg_mod {w h x : ℕ} (hw : 2 ^ w = 2 ^ h * 2 ^ h) (hx : x < 2 ^ w) (hne : x % 2 ^ h ≠ 0) :
    (2 ^ w - x) % 2 ^ h = 2 ^ h - x % 2 ^ h := by
  have hmod := Nat.div_add_mod x (2 ^ h)
  have hlt := Nat.mod_lt x (Nat.two_pow_pos h)
  have hquot : x / 2 ^ h < 2 ^ h := by
    rw [hw] at hx
    exact Nat.div_lt_of_lt_mul hx
  have hsplit : 2 ^ w - x = 2 ^ h - x % 2 ^ h + 2 ^ h * (2 ^ h - 1 - x / 2 ^ h) := by
    obtain ⟨d, hd⟩ := Nat.exists_eq_add_of_lt hquot
    have hrest : 2 ^ h - 1 - x / 2 ^ h = d := by omega
    have hexpand : 2 ^ w = 2 ^ h * (x / 2 ^ h) + 2 ^ h * d + 2 ^ h := by
      rw [hw]
      nth_rewrite 2 [hd]
      ring
    rw [hrest]
    omega
  rw [hsplit, Nat.add_mul_mod_self_left, Nat.mod_eq_of_lt (by omega)]

theorem normIn_eq (hlog : 0 < logWidth) : normIn word typeOp = (typeOp.value word).natAbs := by
  have hpos := half_pos hlog
  have hsign : sign word typeOp = decide (typeOp.value word < 0) := sign_eq hlog
  have hlow : ∀ x, bits x (2 ^ logWidth / 2 - 1) 0 = x % 2 ^ (2 ^ logWidth / 2) := bits_low hpos
  cases typeOp with
  | uint32 => rw [normIn, hlow, abs, sign, if_neg (by simp), IntType.value,
      Int.natAbs_natCast]
  | int32 =>
    have hword : 2 ^ 2 ^ logWidth = 2 ^ (2 ^ logWidth / 2) * 2 ^ (2 ^ logWidth / 2) := by
      rw [← pow_add, ← two_mul, half_eq hlog]
    have hmod := Nat.mod_lt word.toNat (Nat.two_pow_pos (2 ^ logWidth / 2))
    rw [normIn, hlow, abs, hsign, IntType.value, natAbs_signed hmod]
    by_cases hneg : signed (2 ^ logWidth / 2) (word.toNat % 2 ^ (2 ^ logWidth / 2)) < 0
    · have hne : word.toNat % 2 ^ (2 ^ logWidth / 2) ≠ 0 := by
        intro hzero
        rw [hzero, signed_of_lt (Nat.two_pow_pos _)] at hneg
        exact absurd hneg (lt_irrefl _)
      rw [if_pos (decide_eq_true hneg), if_pos hneg,
        Nat.mod_mod_of_dvd _ (Dvd.intro _ hword.symm), neg_mod hword word.isLt hne]
    · rw [if_neg (by rwa [decide_eq_true_iff]), if_neg hneg]
  | uint64 => rw [normIn, abs, sign, if_neg (by simp), IntType.value, Int.natAbs_natCast]
  | int64 =>
    rw [normIn, abs, hsign, IntType.value, natAbs_signed word.isLt]
    by_cases hneg : signed (2 ^ logWidth) word.toNat < 0
    · have hne : word.toNat ≠ 0 := by
        intro hzero
        rw [hzero, signed_of_lt (Nat.two_pow_pos _)] at hneg
        exact absurd hneg (lt_irrefl _)
      have hlt := word.isLt
      rw [if_pos (decide_eq_true hneg), if_pos hneg, Nat.mod_eq_of_lt (by omega)]
    · rw [if_neg (by rwa [decide_eq_true_iff]), if_neg hneg]

theorem normIn_lt (hlog : 0 < logWidth) : normIn word typeOp < 2 ^ 2 ^ logWidth := by
  have hhalf := half_eq hlog
  have habs : abs word typeOp < 2 ^ 2 ^ logWidth := by
    rw [abs]
    split
    · exact Nat.mod_lt _ (Nat.two_pow_pos _)
    · exact word.isLt
  have hlow : bits (abs word typeOp) (2 ^ logWidth / 2 - 1) 0 < 2 ^ 2 ^ logWidth := by
    have hpos := half_pos hlog
    refine (bits_lt _ _ _).trans_le (Nat.pow_le_pow_right two_pos ?_)
    omega
  cases typeOp with
  | uint32 => exact hlow
  | int32 => exact hlow
  | uint64 => exact habs
  | int64 => exact habs

/-! ### The significand -/

theorem normOut_eq (hlog : 0 < logWidth) (hne : normIn word typeOp ≠ 0) :
    normOut word typeOp = normIn word typeOp * 2 ^ (2 ^ logWidth - 1 - msb (normIn word typeOp)) ∧
      2 ^ (2 ^ logWidth - 1) ≤ normOut word typeOp ∧ normOut word typeOp < 2 ^ 2 ^ logWidth := by
  have hmsb : msb (normIn word typeOp) < 2 ^ logWidth :=
    msb_lt (Nat.two_pow_pos _) (normIn_lt hlog)
  have hshift : normOut word typeOp =
      normIn word typeOp * 2 ^ (2 ^ logWidth - 1 - msb (normIn word typeOp)) := by
    rw [normOut, normCount, Normalize.shift, Nat.shiftLeft_eq]
  refine ⟨hshift, ?_, ?_⟩ <;> rw [hshift]
  · calc 2 ^ (2 ^ logWidth - 1)
        = 2 ^ msb (normIn word typeOp) * 2 ^ (2 ^ logWidth - 1 - msb (normIn word typeOp)) := by
          rw [← pow_add, Nat.add_sub_cancel' (Nat.le_sub_one_of_lt hmsb)]
      _ ≤ _ := Nat.mul_le_mul_right _ (two_pow_msb_le hne)
  · calc normIn word typeOp * 2 ^ (2 ^ logWidth - 1 - msb (normIn word typeOp))
        < 2 ^ (msb (normIn word typeOp) + 1) *
            2 ^ (2 ^ logWidth - 1 - msb (normIn word typeOp)) :=
          Nat.mul_lt_mul_of_pos_right (lt_two_pow_msb _) (Nat.two_pow_pos _)
      _ = 2 ^ 2 ^ logWidth := by
          rw [← pow_add]
          congr 1
          omega

theorem expCounted_eq (hlog : 0 < logWidth) :
    expCounted word typeOp = msb (normIn word typeOp) := by
  have hmsb : msb (normIn word typeOp) < 2 ^ logWidth :=
    msb_lt (Nat.two_pow_pos _) (normIn_lt hlog)
  rw [expCounted, normCount, Normalize.shift]
  omega

/-- What is rounded: a significand `m` of which `k + 1` bits are dropped. A word that is too short
for the fraction is one with a zero to drop. -/
structure Rounds (sigWidth : ℕ) {logWidth : ℕ} (word : BitVec (2 ^ logWidth))
    (roundingMode : RoundingMode) (typeOp : IntType) (m k : ℕ) : Prop where
  le : 2 ^ (k + 1 + sigWidth) ≤ m
  lt : m < 2 ^ (k + 1 + sigWidth + 1)
  value : (m : ℚ) * 2 ^ ((msb (normIn word typeOp) : ℤ) - (k + 1 + sigWidth : ℕ)) =
    normIn word typeOp
  rounded : normRounded sigWidth word roundingMode typeOp =
    roundingMode.roundShift (sign word typeOp) m k
  inexact : roundInexact sigWidth word typeOp = decide (m % 2 ^ (k + 1) ≠ 0)

theorem normRounded_of_lt (h : normUnrounded sigWidth word typeOp < 2 ^ (sigWidth + 1)) :
    normRounded sigWidth word roundingMode typeOp = normUnrounded sigWidth word typeOp +
      (round sigWidth word roundingMode typeOp).toNat := by
  have htop : 2 ^ (sigWidth + 2) = 2 ^ (sigWidth + 1) * 2 := pow_succ ..
  rw [normRounded]
  cases round sigWidth word roundingMode typeOp with
  | true => rw [if_pos rfl, Nat.mod_eq_of_lt (by omega), Bool.toNat_true]
  | false => rw [if_neg (by simp), Bool.toNat_false, Nat.add_zero]

section

variable (hlog : 0 < logWidth) (hne : normIn word typeOp ≠ 0)
include hlog hne

theorem rounds_of_le (hle : sigWidth + 2 ≤ 2 ^ logWidth) : Rounds sigWidth word roundingMode typeOp
      (normOut word typeOp) (2 ^ logWidth - sigWidth - 2) := by
  obtain ⟨hshift, hlo, hhi⟩ := normOut_eq hlog hne
  have hmsb : msb (normIn word typeOp) < 2 ^ logWidth :=
    msb_lt (Nat.two_pow_pos _) (normIn_lt hlog)
  have hwidth : 2 ^ logWidth - sigWidth - 2 + 1 + sigWidth = 2 ^ logWidth - 1 := by omega
  have hplace : 2 ^ logWidth - sigWidth - 1 = 2 ^ logWidth - sigWidth - 2 + 1 := by omega
  have hguard : roundBits1 sigWidth word typeOp =
      (normOut word typeOp).testBit (2 ^ logWidth - sigWidth - 2) := by
    rw [roundBits1, decide_eq_true hle, Bool.true_and]
  have hlast : roundBits2 sigWidth word typeOp =
      (normOut word typeOp).testBit (2 ^ logWidth - sigWidth - 2 + 1) := by
    rw [roundBits2, decide_eq_true hle, Bool.true_and, hplace]
  have hsticky : roundBits0 sigWidth word typeOp =
      decide (normOut word typeOp % 2 ^ (2 ^ logWidth - sigWidth - 2) ≠ 0) := by
    rw [roundBits0, bits_zero_right]
    rcases hle.lt_or_eq with hlt | heq
    · rw [decide_eq_true (by omega), Bool.true_and,
        show 2 ^ logWidth - sigWidth - 3 + 1 = 2 ^ logWidth - sigWidth - 2 by omega]
    · rw [decide_eq_false (by omega), Bool.false_and,
        show 2 ^ logWidth - sigWidth - 2 = 0 by omega, pow_zero, Nat.mod_one]
      rfl
  have hround : round sigWidth word roundingMode typeOp =
      roundingMode.roundBit (sign word typeOp)
        ((normOut word typeOp).testBit (2 ^ logWidth - sigWidth - 2 + 1))
        ((normOut word typeOp).testBit (2 ^ logWidth - sigWidth - 2))
        (decide (normOut word typeOp % 2 ^ (2 ^ logWidth - sigWidth - 2) ≠ 0)) := by
    rw [← hguard, ← hlast, ← hsticky]
    cases roundingMode with
    | nearestEven => exact Bool.or_comm ..
    | minMag => rfl
    | min => rfl
    | max => rfl
  have hkept : normUnrounded sigWidth word typeOp =
      normOut word typeOp / 2 ^ (2 ^ logWidth - sigWidth - 2 + 1) := by
    rw [normUnrounded, if_pos (by omega), ← hplace]
    refine bits_of_lt ?_
    rwa [Nat.sub_add_cancel (Nat.two_pow_pos _)]
  have hkept' : normUnrounded sigWidth word typeOp < 2 ^ (sigWidth + 1) := by
    rw [hkept, Nat.div_lt_iff_lt_mul (Nat.two_pow_pos _), ← pow_add]
    exact hhi.trans_le (Nat.pow_le_pow_right two_pos (by omega))
  constructor
  · rwa [hwidth]
  · rwa [hwidth, Nat.sub_add_cancel (Nat.two_pow_pos _)]
  · rw [hwidth, hshift, Nat.cast_mul, mul_assoc, Nat.cast_pow, Nat.cast_ofNat, ← zpow_natCast,
      ← zpow_add₀ two_ne_zero, show ((2 ^ logWidth - 1 - msb (normIn word typeOp) : ℕ) : ℤ) +
        (msb (normIn word typeOp) - (2 ^ logWidth - 1 : ℕ)) = 0 by omega, zpow_zero, mul_one]
  · rw [normRounded_of_lt hkept', hkept, hround, RoundingMode.roundShift]
  · have hbits := RoundingMode.mod_two_pow_succ_eq (normOut word typeOp)
      (2 ^ logWidth - sigWidth - 2)
    have hpos := (Nat.two_pow_pos (2 ^ logWidth - sigWidth - 2)).ne'
    rw [roundInexact, hguard, hsticky, hbits]
    cases (normOut word typeOp).testBit (2 ^ logWidth - sigWidth - 2) <;> simp

theorem rounds_of_lt (hlt : 2 ^ logWidth < sigWidth + 2) : Rounds sigWidth word roundingMode typeOp
      (normOut word typeOp * 2 ^ (sigWidth + 2 - 2 ^ logWidth)) 0 := by
  obtain ⟨hshift, hlo, hhi⟩ := normOut_eq hlog hne
  have hmsb : msb (normIn word typeOp) < 2 ^ logWidth :=
    msb_lt (Nat.two_pow_pos _) (normIn_lt hlog)
  have hpos := Nat.two_pow_pos logWidth
  have hnone : roundBits2 sigWidth word typeOp = false ∧ roundBits1 sigWidth word typeOp = false ∧
      roundBits0 sigWidth word typeOp = false := by
    refine ⟨?_, ?_, ?_⟩
    · rw [roundBits2, decide_eq_false (by omega), Bool.false_and]
    · rw [roundBits1, decide_eq_false (by omega), Bool.false_and]
    · rw [roundBits0, decide_eq_false (by omega), Bool.false_and]
  have hinexact : roundInexact sigWidth word typeOp = false := by
    rw [roundInexact, hnone.2.1, hnone.2.2, Bool.false_or]
  have hround : round sigWidth word roundingMode typeOp = false := by
    cases roundingMode with
    | nearestEven => rw [round, hnone.1, hnone.2.1, Bool.false_and, Bool.false_and, Bool.false_or]
    | minMag => rfl
    | min => rw [round, hinexact, Bool.and_false]
    | max => rw [round, hinexact, Bool.and_false]
  have heven : normOut word typeOp * 2 ^ (sigWidth + 2 - 2 ^ logWidth) % 2 ^ (0 + 1) = 0 := by
    refine Nat.mod_eq_zero_of_dvd (Dvd.dvd.mul_left (pow_dvd_pow 2 ?_) _)
    omega
  have hkept : normUnrounded sigWidth word typeOp =
      normOut word typeOp * 2 ^ (sigWidth + 1 - 2 ^ logWidth) := by
    rw [normUnrounded]
    split
    · rw [show 2 ^ logWidth - sigWidth - 1 = 0 by omega, bits_low hpos, Nat.mod_eq_of_lt hhi,
        show sigWidth + 1 - 2 ^ logWidth = 0 by omega, pow_zero, Nat.mul_one]
    · rw [cat, Nat.add_zero]
  have hdouble : 2 ^ (sigWidth + 2 - 2 ^ logWidth) = 2 ^ (sigWidth + 1 - 2 ^ logWidth) * 2 := by
    rw [← pow_succ]
    congr 1
    omega
  have hbound : normUnrounded sigWidth word typeOp < 2 ^ (sigWidth + 1) := by
    calc normUnrounded sigWidth word typeOp
        < 2 ^ 2 ^ logWidth * 2 ^ (sigWidth + 1 - 2 ^ logWidth) := by
          rw [hkept]
          exact Nat.mul_lt_mul_of_pos_right hhi (Nat.two_pow_pos _)
      _ = 2 ^ (sigWidth + 1) := by
          rw [← pow_add]
          congr 1
          omega
  have hvalue : (sigWidth + 2 - 2 ^ logWidth : ℕ) + (2 ^ logWidth - 1) = 0 + 1 + sigWidth := by
    omega
  constructor
  · rw [← hvalue, Nat.add_comm, pow_add]
    exact Nat.mul_le_mul_right _ hlo
  · calc normOut word typeOp * 2 ^ (sigWidth + 2 - 2 ^ logWidth)
        < 2 ^ 2 ^ logWidth * 2 ^ (sigWidth + 2 - 2 ^ logWidth) :=
          Nat.mul_lt_mul_of_pos_right hhi (Nat.two_pow_pos _)
      _ = 2 ^ (0 + 1 + sigWidth + 1) := by
          rw [← pow_add]
          congr 1
          omega
  · rw [hshift, Nat.cast_mul, Nat.cast_mul, mul_assoc, mul_assoc, Nat.cast_pow, Nat.cast_pow,
      Nat.cast_ofNat, ← zpow_natCast, ← zpow_natCast, ← zpow_add₀ two_ne_zero,
      ← zpow_add₀ two_ne_zero]
    have hplace : ((2 ^ logWidth - 1 - msb (normIn word typeOp) : ℕ) : ℤ) +
        (((sigWidth + 2 - 2 ^ logWidth : ℕ) : ℤ) +
          (msb (normIn word typeOp) - (0 + 1 + sigWidth : ℕ))) = 0 := by
      omega
    rw [hplace, zpow_zero, mul_one]
  · have hexact : roundingMode.roundShift (sign word typeOp)
        (normOut word typeOp * 2 ^ (sigWidth + 2 - 2 ^ logWidth)) 0 * 2 ^ (0 + 1) =
          normOut word typeOp * 2 ^ (sigWidth + 2 - 2 ^ logWidth) :=
      (RoundingMode.roundShift_mul_eq_iff _ 0).mpr heven
    rw [hdouble, ← Nat.mul_assoc, Nat.zero_add, pow_one] at hexact
    rw [normRounded_of_lt hbound, hround, Bool.toNat_false, Nat.add_zero, hkept, hdouble,
      ← Nat.mul_assoc]
    exact (Nat.eq_of_mul_eq_mul_right two_pos hexact).symm
  · rw [hinexact, heven]
    rfl

theorem exists_rounds :
    ∃ m k, Rounds sigWidth word roundingMode typeOp m k := by
  rcases Nat.lt_or_ge (2 ^ logWidth) (sigWidth + 2) with hlt | hle
  · exact ⟨_, _, rounds_of_lt hlog hne hlt⟩
  · exact ⟨_, _, rounds_of_le hlog hne hle⟩

theorem normRounded_bounds :
    2 ^ sigWidth ≤ normRounded sigWidth word roundingMode typeOp ∧
      normRounded sigWidth word roundingMode typeOp ≤ 2 ^ (sigWidth + 1) := by
  obtain ⟨m, k, hrounds⟩ : ∃ m k, Rounds sigWidth word roundingMode typeOp m k :=
    exists_rounds hlog hne
  rw [hrounds.rounded]
  exact RoundingMode.roundShift_bounds hrounds.le hrounds.lt

end

theorem round_of_zero (roundingMode : RoundingMode) (hzero : normIn word typeOp = 0) :
    round sigWidth word roundingMode typeOp = false ∧
      roundInexact sigWidth word typeOp = false ∧
      normRounded sigWidth word roundingMode typeOp = 0 := by
  have hout : normOut word typeOp = 0 := by
    rw [normOut, hzero, Nat.zero_shiftLeft]
  have hbits : ∀ hi lo, bits 0 hi lo = 0 := by
    intro hi lo
    rw [bits, Nat.zero_div, Nat.zero_mod]
  have h2 : roundBits2 sigWidth word typeOp = false := by
    rw [roundBits2, hout, Nat.zero_testBit, Bool.and_false]
  have h1 : roundBits1 sigWidth word typeOp = false := by
    rw [roundBits1, hout, Nat.zero_testBit, Bool.and_false]
  have h0 : roundBits0 sigWidth word typeOp = false := by
    rw [roundBits0, hout, hbits, decide_eq_false (not_not.mpr rfl), Bool.and_false]
  have hinexact : roundInexact sigWidth word typeOp = false := by
    rw [roundInexact, h1, h0, Bool.false_or]
  have hround : round sigWidth word roundingMode typeOp = false := by
    cases roundingMode with
    | nearestEven => rw [round, h2, h1, Bool.false_and, Bool.false_and, Bool.false_or]
    | minMag => rfl
    | min => rw [round, hinexact, Bool.and_false]
    | max => rw [round, hinexact, Bool.and_false]
  refine ⟨hround, hinexact, ?_⟩
  rw [normRounded, hround, if_neg (by simp), normUnrounded, hout]
  split
  · exact hbits _ _
  · rw [cat, Nat.zero_mul]

/-! ### The exponent -/

/-- Whether rounding carries out of the significand. -/
def carry (sigWidth : ℕ) {logWidth : ℕ} (word : BitVec (2 ^ logWidth))
    (roundingMode : RoundingMode) (typeOp : IntType) : ℕ :=
  if normRounded sigWidth word roundingMode typeOp = 2 ^ (sigWidth + 1) then 1 else 0

theorem carry_le : carry sigWidth word roundingMode typeOp ≤ 1 := by
  rw [carry]
  split <;> omega

theorem carry_eq (hlog : 0 < logWidth) (hne : normIn word typeOp ≠ 0) :
    ((normRounded sigWidth word roundingMode typeOp).testBit (sigWidth + 1)).toNat =
      carry sigWidth word roundingMode typeOp := by
  have hbounds : normRounded sigWidth word roundingMode typeOp ≤ 2 ^ (sigWidth + 1) :=
    (normRounded_bounds hlog hne).2
  rw [carry]
  rcases hbounds.lt_or_eq with hlt | heq
  · rw [if_neg hlt.ne, Nat.testBit_lt_two_pow hlt]
    rfl
  · rw [if_pos heq, heq, Nat.testBit_two_pow_self]
    rfl

end AnyToRecoded

/-- A format that has exponents for the integers of a word. -/
structure IntConf where
  sigWidth : ℕ
  expWidth : ℕ
  logWidth : ℕ
  sig_pos : 0 < sigWidth
  log_pos : 0 < logWidth
  log_le : logWidth + 2 ≤ expWidth

namespace IntConf

open AnyToRecoded

variable (c : IntConf) {word : BitVec (2 ^ c.logWidth)} {roundingMode : RoundingMode}
  {typeOp : IntType}

theorem three_le : 3 ≤ c.expWidth := by
  have hpos := c.log_pos
  have hle := c.log_le
  omega

theorem two_pow_le : 2 ^ c.logWidth ≤ 2 ^ (c.expWidth - 2) :=
  Nat.pow_le_pow_right two_pos (Nat.le_sub_of_add_le c.log_le)

theorem msb_add_carry_le :
    msb (normIn word typeOp) + carry c.sigWidth word roundingMode typeOp ≤ 2 ^ c.logWidth := by
  have hmsb : msb (normIn word typeOp) < 2 ^ c.logWidth :=
    msb_lt (Nat.two_pow_pos _) (normIn_lt c.log_pos)
  exact (Nat.add_le_add_left carry_le _).trans hmsb

theorem exp_eq (roundingMode : RoundingMode) (hne : normIn word typeOp ≠ 0) :
    expRounded c.sigWidth c.expWidth word roundingMode typeOp =
        msb (normIn word typeOp) + carry c.sigWidth word roundingMode typeOp ∧
      msb (normIn word typeOp) + carry c.sigWidth word roundingMode typeOp ≤
        2 ^ (c.expWidth - 2) := by
  have hbound : msb (normIn word typeOp) + carry c.sigWidth word roundingMode typeOp ≤
      2 ^ (c.expWidth - 2) := c.msb_add_carry_le.trans c.two_pow_le
  have hlt : 2 ^ (c.expWidth - 2) < 2 ^ (c.expWidth - 1) :=
    Nat.pow_lt_pow_right Nat.one_lt_two (by have hE := c.three_le; omega)
  refine ⟨?_, hbound⟩
  rw [expRounded, expUnrounded, if_neg (by have hle := c.log_le; omega),
    expCounted_eq c.log_pos, carry_eq c.log_pos hne]
  exact Nat.mod_eq_of_lt (hbound.trans_lt hlt)

theorem overflowUnrounded_eq : overflowUnrounded c.expWidth word typeOp = false := by
  rw [overflowUnrounded, decide_eq_false (by have hle := c.log_le; omega), Bool.false_and]

theorem exponent_eq (hne : normIn word typeOp ≠ 0) :
    exponent c.sigWidth c.expWidth word roundingMode typeOp = 2 ^ (c.expWidth - 1) +
      (msb (normIn word typeOp) + carry c.sigWidth word roundingMode typeOp) := by
  obtain ⟨hexp, hbound⟩ := c.exp_eq roundingMode hne
  obtain ⟨-, hlo, hhi⟩ := normOut_eq c.log_pos hne
  have hE := c.three_le
  have htop : (normOut word typeOp).testBit (2 ^ c.logWidth - 1) = true := by
    rw [Nat.testBit_eq_decide_div_mod_eq, Nat.div_eq_of_lt_le (k := 1) (by omega)]
    · rfl
    · rw [Nat.succ_mul, Nat.one_mul, ← Nat.two_mul, ← pow_succ',
        Nat.sub_add_cancel (Nat.two_pow_pos _)]
      exact hhi
  have hlt : 2 ^ (c.expWidth - 2) < 2 ^ (c.expWidth - 2 + 1) := Nat.pow_lt_pow_succ Nat.one_lt_two
  rw [exponent, htop, overflowUnrounded_eq, if_neg (by simp), hexp, bits_zero_right,
    Nat.mod_eq_of_lt (by omega), cat, Bool.toNat_true, Nat.one_mul]

/-- The exponent overflows if the number is rounded to a power of two that is too large. -/
theorem overflow_eq (hne : normIn word typeOp ≠ 0) :
    overflow c.sigWidth c.expWidth word roundingMode typeOp =
      decide (msb (normIn word typeOp) + carry c.sigWidth word roundingMode typeOp =
        2 ^ (c.expWidth - 2)) := by
  obtain ⟨hexp, hbound⟩ := c.exp_eq roundingMode hne
  have hmsb : msb (normIn word typeOp) < 2 ^ c.logWidth :=
    msb_lt (Nat.two_pow_pos _) (normIn_lt c.log_pos)
  have hcarry : carry c.sigWidth word roundingMode typeOp ≤ 1 := carry_le
  rw [overflow, overflowUnrounded_eq, Bool.false_or, overflowRounded, hexp]
  rcases hbound.lt_or_eq with hlt | heq
  · rw [Nat.testBit_lt_two_pow hlt, Bool.and_false, decide_eq_false hlt.ne]
  · rw [heq, Nat.testBit_two_pow_self, decide_eq_true (by omega), decide_eq_true rfl]
    rfl

theorem out_eq (roundingMode : RoundingMode) (hne : normIn word typeOp ≠ 0) :
    (out c.sigWidth c.expWidth word roundingMode typeOp).exp.toNat = 2 ^ (c.expWidth - 1) +
        (msb (normIn word typeOp) + carry c.sigWidth word roundingMode typeOp) ∧
      (out c.sigWidth c.expWidth word roundingMode typeOp).sig.toNat =
        normRounded c.sigWidth word roundingMode typeOp % 2 ^ c.sigWidth := by
  obtain ⟨hq, hq', hq''⟩ := RecFloat.two_pow_expWidth c.three_le
  have hbound := (c.exp_eq roundingMode hne).2
  refine ⟨?_, ?_⟩
  · have hpos := Nat.two_pow_pos (c.expWidth - 3)
    rw [out, exponent_eq c hne, BitVec.toNat_ofNat, Nat.mod_eq_of_lt (by omega)]
  · rw [out, BitVec.toNat_ofNat, bits_low c.sig_pos, Nat.mod_mod]

theorem out_of_zero (roundingMode : RoundingMode) (hzero : normIn word typeOp = 0) :
    (out c.sigWidth c.expWidth word roundingMode typeOp).exp = 0 ∧
      (out c.sigWidth c.expWidth word roundingMode typeOp).sig = 0 ∧
      overflow c.sigWidth c.expWidth word roundingMode typeOp = false := by
  have hrounded : normRounded c.sigWidth word roundingMode typeOp = 0 :=
    (round_of_zero roundingMode hzero).2.2
  have hout : normOut word typeOp = 0 := by
    rw [normOut, hzero, Nat.zero_shiftLeft]
  have hexp : expRounded c.sigWidth c.expWidth word roundingMode typeOp = 0 := by
    rw [expRounded, expUnrounded, if_neg (by have hle := c.log_le; omega),
      expCounted_eq c.log_pos, hzero, hrounded, Nat.zero_testBit, msb, Nat.log_zero_right]
    rfl
  refine ⟨?_, ?_, ?_⟩
  · rw [out, exponent, hout, overflowUnrounded_eq, if_neg (by simp), hexp,
      Nat.zero_testBit, bits_zero_right, Nat.zero_mod, cat, Bool.toNat_false, Nat.zero_mul]
    rfl
  · rw [out, hrounded, bits_zero_right, Nat.zero_mod]
    rfl
  · rw [overflow, overflowUnrounded_eq, overflowRounded, hexp, Nat.zero_testBit, Bool.and_false]
    rfl

theorem roundMag_eq (roundingMode : RoundingMode) (hne : normIn word typeOp ≠ 0) :
    (recFormat c.sigWidth c.expWidth).roundMag roundingMode (sign word typeOp)
        (normIn word typeOp) =
      normRounded c.sigWidth word roundingMode typeOp *
        2 ^ ((msb (normIn word typeOp) : ℤ) - c.sigWidth) ∧
    ((recFormat c.sigWidth c.expWidth).roundMag roundingMode (sign word typeOp)
        (normIn word typeOp) ≠ normIn word typeOp ↔
      roundInexact c.sigWidth word typeOp = true) := by
  obtain ⟨m, k, hrounds⟩ : ∃ m k, Rounds c.sigWidth word roundingMode typeOp m k :=
    exists_rounds c.log_pos hne
  have hemin : max (msb (normIn word typeOp) : ℤ) (2 - 2 ^ (c.expWidth - 2)) =
      msb (normIn word typeOp) + (0 : ℕ) := by
    have hq := (RecFloat.two_pow_expWidth c.three_le).1
    have hpos := Nat.two_pow_pos (c.expWidth - 3)
    rw [Nat.cast_zero, add_zero]
    refine max_eq_left ?_
    zify at hq hpos
    omega
  have hround : (recFormat c.sigWidth c.expWidth).roundMag roundingMode (sign word typeOp)
      ((m : ℚ) * 2 ^ ((msb (normIn word typeOp) : ℤ) - (k + 1 + c.sigWidth : ℕ))) =
        roundingMode.roundShift (sign word typeOp) m k *
          2 ^ ((msb (normIn word typeOp) : ℤ) + (0 : ℕ) - c.sigWidth) :=
    (FloatFormat.roundMag_eq hrounds.le hrounds.lt hemin rfl).2
  rw [hrounds.value, ← hrounds.rounded, Nat.cast_zero, add_zero] at hround
  refine ⟨hround, ?_⟩
  have hunit : (2 : ℚ) ^ ((msb (normIn word typeOp) : ℤ) - c.sigWidth) =
      (2 ^ (k + 1) : ℕ) * 2 ^ ((msb (normIn word typeOp) : ℤ) - (k + 1 + c.sigWidth : ℕ)) := by
    rw [Nat.cast_pow, Nat.cast_ofNat, ← zpow_natCast, ← zpow_add₀ two_ne_zero]
    congr 1
    push_cast
    ring
  have hscale : (0 : ℚ) < 2 ^ ((msb (normIn word typeOp) : ℤ) - (k + 1 + c.sigWidth : ℕ)) :=
    zpow_pos two_pos _
  rw [hround, hrounds.inexact, decide_eq_true_iff, not_iff_not, ← hrounds.value, hunit,
    ← mul_assoc, mul_left_inj' hscale.ne', ← Nat.cast_mul, Nat.cast_inj, hrounds.rounded]
  exact RoundingMode.roundShift_mul_eq_iff m k

/-- A number that is carried past the largest one is rounded away from zero. -/
theorem overflowsToInf (hne : normIn word typeOp ≠ 0)
    (hcarry : normRounded c.sigWidth word roundingMode typeOp = 2 ^ (c.sigWidth + 1)) :
    roundingMode.overflowsToInf (sign word typeOp) = true := by
  obtain ⟨m, k, hrounds⟩ : ∃ m k, Rounds c.sigWidth word roundingMode typeOp m k :=
    exists_rounds c.log_pos hne
  refine RoundingMode.overflowsToInf_of_lt (m := m) (k := k) ?_
  rw [← hrounds.rounded, hcarry, Nat.div_lt_iff_lt_mul (Nat.two_pow_pos _), ← pow_add,
    Nat.add_comm (c.sigWidth + 1), ← Nat.add_assoc]
  exact hrounds.lt

theorem out_round_of_ne (hne : normIn word typeOp ≠ 0) :
    (recFormat c.sigWidth c.expWidth).round roundingMode
        (.finite (sign word typeOp) (normIn word typeOp)) =
      ⟨(out c.sigWidth c.expWidth word roundingMode typeOp).val,
        overflow c.sigWidth c.expWidth word roundingMode typeOp,
        inexact c.sigWidth c.expWidth word roundingMode typeOp⟩ := by
  obtain ⟨hmag, hinexact⟩ := c.roundMag_eq roundingMode hne
  obtain ⟨hexp, hsig⟩ := c.out_eq roundingMode hne
  have hlo : 2 ^ c.sigWidth ≤ normRounded c.sigWidth word roundingMode typeOp :=
    (normRounded_bounds c.log_pos hne).1
  have hhi : normRounded c.sigWidth word roundingMode typeOp ≤ 2 ^ (c.sigWidth + 1) :=
    (normRounded_bounds c.log_pos hne).2
  obtain ⟨hq, hq', hq''⟩ := RecFloat.two_pow_expWidth c.three_le
  have hbound := (c.exp_eq roundingMode hne).2
  have hpos := Nat.two_pow_pos (c.expWidth - 3)
  have htop : ((recFormat c.sigWidth c.expWidth).emax : ℤ) = (2 ^ (c.expWidth - 2) : ℕ) - 1 := by
    rw [recFormat, Nat.cast_pow, Nat.cast_ofNat]
  have hlarge := FloatFormat.two_pow_le_significand_iff hlo hhi (msb (normIn word typeOp))
    (recFormat c.sigWidth c.expWidth).emax
  rw [← hmag] at hlarge
  rcases hbound.lt_or_eq with hlt | heq
  · have hsmall : ¬ (2 : ℚ) ^ ((recFormat c.sigWidth c.expWidth).emax + 1) ≤
        (recFormat c.sigWidth c.expWidth).roundMag roundingMode (sign word typeOp)
          (normIn word typeOp) := by
      rw [hlarge, htop]
      rintro (habove | ⟨hequal, hcarry⟩)
      · omega
      · rw [carry, if_pos hcarry] at hlt
        omega
    have hnone : overflow c.sigWidth c.expWidth word roundingMode typeOp = false := by
      rw [c.overflow_eq hne, decide_eq_false hlt.ne]
    rw [FloatFormat.round_of_lt (not_le.mp hsmall), hnone, inexact, hnone, Bool.or_false]
    have hcode : 2 ^ (c.expWidth - 3) ≤
          (out c.sigWidth c.expWidth word roundingMode typeOp).exp.toNat ∧
        (out c.sigWidth c.expWidth word roundingMode typeOp).exp.toNat <
          6 * 2 ^ (c.expWidth - 3) := by
      omega
    rw [carry, ← Nat.add_assoc] at hexp
    have hval := RecFloat.val_of_rounded c.three_le hlo hhi hsig hexp hcode.1 hcode.2
    have hplace : ((2 ^ (c.expWidth - 1) + msb (normIn word typeOp) : ℕ) : ℤ) -
        2 ^ (c.expWidth - 1) - c.sigWidth = (msb (normIn word typeOp) : ℤ) - c.sigWidth := by
      push_cast
      ring
    rw [hplace, ← hmag] at hval
    rw [hval, out]
    refine congrArg (FloatResult.mk _ false) ?_
    rw [Bool.eq_iff_iff, decide_eq_true_iff]
    exact hinexact
  · have hcarry : normRounded c.sigWidth word roundingMode typeOp = 2 ^ (c.sigWidth + 1) := by
      by_contra hno
      have hmsb : msb (normIn word typeOp) < 2 ^ c.logWidth :=
        msb_lt (Nat.two_pow_pos _) (normIn_lt c.log_pos)
      have hle := c.two_pow_le
      rw [carry, if_neg hno] at heq
      omega
    have hinf : (out c.sigWidth c.expWidth word roundingMode typeOp).isInf = true := by
      rw [RecFloat.isInf_iff c.three_le]
      omega
    have htoo : (2 : ℚ) ^ ((recFormat c.sigWidth c.expWidth).emax + 1) ≤
        (recFormat c.sigWidth c.expWidth).roundMag roundingMode (sign word typeOp)
          (normIn word typeOp) := by
      rw [hlarge, htop]
      rw [carry, if_pos hcarry] at heq
      exact Or.inr ⟨by omega, hcarry⟩
    rw [FloatFormat.round_of_le htoo, c.overflowsToInf hne hcarry, if_pos rfl,
      RecFloat.val_of_isInf hinf, inexact, c.overflow_eq hne, decide_eq_true heq, Bool.or_true]
    rfl

theorem out_round (word : BitVec (2 ^ c.logWidth)) (roundingMode : RoundingMode)
    (typeOp : IntType) :
    (recFormat c.sigWidth c.expWidth).round roundingMode
        (.finite (decide (typeOp.value word < 0)) (typeOp.value word).natAbs) =
      ⟨(out c.sigWidth c.expWidth word roundingMode typeOp).val,
        (exc c.sigWidth c.expWidth word roundingMode typeOp).overflow,
        (exc c.sigWidth c.expWidth word roundingMode typeOp).inexact⟩ := by
  rw [← sign_eq c.log_pos, ← normIn_eq c.log_pos]
  by_cases hzero : normIn word typeOp = 0
  · obtain ⟨hexp, -, hnone⟩ := c.out_of_zero roundingMode hzero
    have hcode : (out c.sigWidth c.expWidth word roundingMode typeOp).isZero = true := by
      rw [RecFloat.isZero_iff c.three_le, hexp]
      exact Nat.two_pow_pos _
    have hexact : roundInexact c.sigWidth word typeOp = false :=
      (round_of_zero roundingMode hzero).2.1
    rw [hzero, Nat.cast_zero, FloatFormat.round_zero, RecFloat.val_of_isZero hcode, exc, inexact,
      hnone, hexact]
    rfl
  · exact c.out_round_of_ne hzero

/-- Without an exponent to spare only the largest integers overflow; with one, none does. -/
theorem overflow_of_lt (hle : c.logWidth + 3 ≤ c.expWidth) (word : BitVec (2 ^ c.logWidth))
    (roundingMode : RoundingMode) (typeOp : IntType) :
    overflow c.sigWidth c.expWidth word roundingMode typeOp = false := by
  by_cases hzero : normIn word typeOp = 0
  · exact (c.out_of_zero roundingMode hzero).2.2
  · have hlt : 2 ^ c.logWidth < 2 ^ (c.expWidth - 2) :=
      Nat.pow_lt_pow_right Nat.one_lt_two (by omega)
    rw [c.overflow_eq hzero]
    exact decide_eq_false (c.msb_add_carry_le.trans_lt hlt).ne

end IntConf

/-- **Conversion of an integer is rounding.** The integers of both signs and of both sizes are
rounded once, zero included; if the format has an exponent to spare, nothing overflows, and the
conversion is inexact exactly if the number has changed. -/
theorem anyToRecodedFloatN_exact :
    (∀ (c : IntConf) (word : BitVec (2 ^ c.logWidth)) (roundingMode : RoundingMode)
      (typeOp : IntType),
      (recFormat c.sigWidth c.expWidth).round roundingMode
          (.finite (decide (typeOp.value word < 0)) (typeOp.value word).natAbs) =
        ⟨(AnyToRecoded.out c.sigWidth c.expWidth word roundingMode typeOp).val,
          (AnyToRecoded.exc c.sigWidth c.expWidth word roundingMode typeOp).overflow,
          (AnyToRecoded.exc c.sigWidth c.expWidth word roundingMode typeOp).inexact⟩) ∧
    (∀ (c : IntConf) (word : BitVec (2 ^ c.logWidth)) (roundingMode : RoundingMode)
      (typeOp : IntType), c.logWidth + 3 ≤ c.expWidth →
      (AnyToRecoded.out c.sigWidth c.expWidth word roundingMode typeOp).val =
          .finite (decide (typeOp.value word < 0))
            ((recFormat c.sigWidth c.expWidth).roundMag roundingMode
              (decide (typeOp.value word < 0)) (typeOp.value word).natAbs) ∧
        ((AnyToRecoded.exc c.sigWidth c.expWidth word roundingMode typeOp).inexact = true ↔
          (AnyToRecoded.out c.sigWidth c.expWidth word roundingMode typeOp).val ≠
            .finite (decide (typeOp.value word < 0)) (typeOp.value word).natAbs)) := by
  refine ⟨fun c word roundingMode typeOp => c.out_round word roundingMode typeOp, ?_⟩
  intro c word roundingMode typeOp hle
  have hround := c.out_round word roundingMode typeOp
  have hnone := c.overflow_of_lt hle word roundingMode typeOp
  rcases le_or_gt ((2 : ℚ) ^ ((recFormat c.sigWidth c.expWidth).emax + 1))
    ((recFormat c.sigWidth c.expWidth).roundMag roundingMode (decide (typeOp.value word < 0))
      (typeOp.value word).natAbs) with htoo | hfits
  · rw [FloatFormat.round_of_le htoo] at hround
    have hover := congrArg FloatResult.overflow hround
    exact absurd (hover.trans hnone) Bool.noConfusion
  · rw [FloatFormat.round_of_lt hfits] at hround
    obtain ⟨hval, -, hinexact⟩ := FloatResult.mk.inj hround
    refine ⟨hval.symm, ?_⟩
    rw [← hval, ← hinexact, decide_eq_true_iff, ne_eq, ne_eq, FloatDatum.finite.injEq,
      eq_self_iff_true, true_and]

end RiscvSoc
