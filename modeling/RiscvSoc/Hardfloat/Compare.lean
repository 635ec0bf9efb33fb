import RiscvSoc.Hardfloat.MulAdd
import RiscvSoc.Lib.FloatOrder

/-!
# Comparing recoded numbers

`recodedFloat32Compare` and `recodedFloat64Compare` of the floating-point library are the same
circuit at two widths. They compare exponents and fractions as natural numbers. So do they for zeros
of the same sign and for infinities, though there the code at the top of the exponent says
everything: two of them are taken for different when the bits below the code differ.

Where the exponent is cut off from the fraction makes no difference.
-/

namespace RiscvSoc

open Bits RecFloat

structure CompareOut where
  aEqB : Bool
  aLtB : Bool
  aEqBInvalid : Bool
  aLtBInvalid : Bool

/-! ### The circuit -/

section

variable (sigWidth expWidth : ℕ) (a b : BitVec (sigWidth + expWidth + 1))

/-- The fields of an input. -/
def signOf : Bool := a.getLsbD (sigWidth + expWidth)

def expOf : BitVec expWidth := a.extractLsb' sigWidth expWidth

def sigOf : BitVec sigWidth := a.extractLsb' 0 sigWidth

def codeOf : BitVec 3 := a.extractLsb' (sigWidth + expWidth - 3) 3

/-- `recodedFloat32Compare` and `recodedFloat64Compare`. -/
def recodedFloatCompare : CompareOut :=
  let aSign := signOf sigWidth expWidth a
  let bSign := signOf sigWidth expWidth b
  let aExp := expOf sigWidth expWidth a
  let bExp := expOf sigWidth expWidth b
  let aSig := sigOf sigWidth expWidth a
  let bSig := sigOf sigWidth expWidth b
  let aCode := codeOf sigWidth expWidth a
  let bCode := codeOf sigWidth expWidth b
  let expALtExpB := aExp.ult bExp
  let expAGtExpB := !expALtExpB && !(aExp == bExp)
  let sigALtSigB := aSig.ult bSig
  let sigAGtSigB := !sigALtSigB && !(aSig == bSig)
  let negZeroEq := aCode == 0b000 && bCode == 0b000 && !(aSign == bSign)
  let aOrBIsNan := aCode == 0b111 || bCode == 0b111
  { aEqB :=
      if negZeroEq then true
      else if !(aSign == bSign) then false
      else if !(aExp == bExp) then false
      else if !(aSig == bSig) then false
      else if aCode == 0b111 then false
      else true
    aLtB :=
      if aOrBIsNan then false
      else if negZeroEq then false
      else if !aSign && !bSign then if aExp == bExp then sigALtSigB else expALtExpB
      else if aSign && !bSign then true
      else if !aSign && bSign then false
      else if aSign && bSign then if aExp == bExp then sigAGtSigB else expAGtExpB
      else false
    aEqBInvalid := aCode == 0b111 && !a.getLsbD (sigWidth - 1) ||
      bCode == 0b111 && !b.getLsbD (sigWidth - 1)
    aLtBInvalid := aOrBIsNan }

end

/-! ### Magnitudes -/

theorem cat_lt_cat_iff {a b m n w : ℕ} (hm : m < 2 ^ w) (hn : n < 2 ^ w) :
    cat a w m < cat b w n ↔ a < b ∨ a = b ∧ m < n := by
  rw [cat, cat]
  rcases lt_trichotomy a b with hab | rfl | hab
  · have hle : (a + 1) * 2 ^ w ≤ b * 2 ^ w := Nat.mul_le_mul_right _ hab
    rw [Nat.succ_mul] at hle
    exact iff_of_true (by omega) (.inl hab)
  · simp
  · have hle : (b + 1) * 2 ^ w ≤ a * 2 ^ w := Nat.mul_le_mul_right _ hab
    rw [Nat.succ_mul] at hle
    exact iff_of_false (by omega) (by omega)

theorem cat_slices (v s e : ℕ) : cat (v / 2 ^ s % 2 ^ e) s (v % 2 ^ s) = v % 2 ^ (s + e) := by
  rw [cat, pow_add, Nat.mod_mul, Nat.mul_comm, Nat.add_comm]

namespace RecFloat

variable {sigWidth expWidth : ℕ}

/-- The exponent and the fraction as one number. -/
def bits (x : RecFloat sigWidth expWidth) : ℕ := cat x.exp.toNat sigWidth x.sig.toNat

/-- What follows the codes of two zeros or of two infinities is the same. -/
def SameCode (x y : RecFloat sigWidth expWidth) : Prop :=
  x.isZero = true ∧ y.isZero = true ∨ x.isInf = true ∧ y.isInf = true → x.bits = y.bits

variable {x y : RecFloat sigWidth expWidth}

theorem SameCode.symm (h : SameCode x y) : SameCode y x :=
  fun hyx => (h (hyx.imp And.symm And.symm)).symm

theorem bits_eq_iff : x.bits = y.bits ↔ x.exp = y.exp ∧ x.sig = y.sig := by
  constructor
  · intro h
    have hexp := congrArg (· / 2 ^ sigWidth) h
    have hsig := congrArg (· % 2 ^ sigWidth) h
    simp only [bits, cat_div x.sig.isLt, cat_div y.sig.isLt, cat_mod x.sig.isLt,
      cat_mod y.sig.isLt] at hexp hsig
    exact ⟨BitVec.eq_of_toNat_eq hexp, BitVec.eq_of_toNat_eq hsig⟩
  · rintro ⟨hexp, hsig⟩
    rw [bits, bits, hexp, hsig]

theorem bits_lt_iff : x.bits < y.bits ↔
    x.exp.toNat < y.exp.toNat ∨ x.exp.toNat = y.exp.toNat ∧ x.sig.toNat < y.sig.toNat :=
  cat_lt_cat_iff x.sig.isLt y.sig.isLt

theorem mag_pos : 0 < x.mag := by
  have hsig : (0 : ℚ) < x.significand := by
    rw [significand]
    positivity
  exact mul_pos hsig (zpow_pos two_pos _)

theorem mag_lt_mag (h : x.bits < y.bits) : x.mag < y.mag := by
  rcases bits_lt_iff.mp h with hexp | ⟨hexp, hsig⟩
  · have htop : (x.significand : ℚ) < 2 * 2 ^ sigWidth := by
      rw [significand]
      exact_mod_cast (by have := x.sig.isLt; omega : 2 ^ sigWidth + x.sig.toNat < 2 * 2 ^ sigWidth)
    have hlow : ((2 : ℚ) ^ sigWidth) ≤ y.significand := by
      rw [significand]
      exact_mod_cast Nat.le_add_right _ _
    have hstep : (2 : ℚ) * 2 ^ ((x.exp.toNat : ℤ) - 2 ^ (expWidth - 1) - sigWidth) ≤
        2 ^ ((y.exp.toNat : ℤ) - 2 ^ (expWidth - 1) - sigWidth) := by
      rw [← zpow_one_add₀ two_ne_zero]
      exact zpow_le_zpow_right₀ one_le_two (by omega)
    have hpow : (0 : ℚ) < 2 ^ ((x.exp.toNat : ℤ) - 2 ^ (expWidth - 1) - sigWidth) :=
      zpow_pos two_pos _
    calc x.mag < 2 * 2 ^ sigWidth * 2 ^ ((x.exp.toNat : ℤ) - 2 ^ (expWidth - 1) - sigWidth) :=
          mul_lt_mul_of_pos_right htop hpow
      _ = 2 ^ sigWidth * (2 * 2 ^ ((x.exp.toNat : ℤ) - 2 ^ (expWidth - 1) - sigWidth)) := by ring
      _ ≤ y.mag := mul_le_mul hlow hstep (by positivity) (Nat.cast_nonneg _)
  · rw [mag, mag, hexp]
    refine mul_lt_mul_of_pos_right ?_ (zpow_pos two_pos _)
    rw [significand, significand]
    exact_mod_cast Nat.add_lt_add_left hsig _

theorem code_lt (hE : 3 ≤ expWidth) (hnan : x.isNaN = false) (hinf : x.isInf = false) :
    x.exp.toNat < 6 * 2 ^ (expWidth - 3) := by
  rw [← Bool.not_eq_true, isNaN_iff hE] at hnan
  rw [← Bool.not_eq_true, isInf_iff hE] at hinf
  omega

theorem size_eq_zero_iff (hnan : x.isNaN = false) : x.val.size = 0 ↔ x.isZero = true := by
  cases hzero : x.isZero with
  | true =>
    rw [val_of_isZero hzero]
    exact iff_of_true rfl rfl
  | false =>
    refine iff_of_false ?_ Bool.false_ne_true
    rw [val, hnan, hzero]
    cases x.isInf with
    | true => exact WithTop.top_ne_zero
    | false => exact fun h => mag_pos.ne' (WithTop.coe_eq_zero.mp h)

theorem sign_val (hnan : x.isNaN = false) : x.val.sign = x.sign := by
  rw [val, hnan]
  cases x.isInf <;> rfl

theorem isNaN_val : x.val.isNaN = x.isNaN := by
  cases hnan : x.isNaN with
  | true => rw [val_of_isNaN hnan]; rfl
  | false =>
    rw [val, hnan]
    cases x.isInf <;> rfl

theorem expCode_of_bits (h : x.bits = y.bits) : x.expCode = y.expCode := by
  rw [expCode, expCode, (bits_eq_iff.mp h).1]

theorem isNaN_of_bits (h : x.bits = y.bits) : x.isNaN = y.isNaN := by
  rw [isNaN, isNaN, expCode_of_bits h]

theorem isZero_of_isNaN (h : x.isNaN = true) : x.isZero = false := by
  rw [isNaN, decide_eq_true_iff] at h
  rw [isZero, h]
  rfl

/-- Two numbers that the circuits take for different are not ordered. -/
theorem less_of_not_sameCode (h : ¬(x.sign = y.sign → SameCode x y)) :
    x.val.less y.val = false ∧ y.val.less x.val = false := by
  obtain ⟨hsign, hcode⟩ := Classical.not_imp.mp h
  obtain ⟨⟨hx, hy⟩ | ⟨hx, hy⟩, -⟩ := Classical.not_imp.mp hcode
  · rw [val_of_isZero hx, val_of_isZero hy, hsign]
    exact ⟨decide_eq_false (lt_irrefl _), decide_eq_false (lt_irrefl _)⟩
  · rw [val_of_isInf hx, val_of_isInf hy, hsign]
    cases y.sign <;> exact ⟨rfl, rfl⟩

section

variable (hE : 3 ≤ expWidth) (hsame : SameCode x y) (hxn : x.isNaN = false)
  (hyn : y.isNaN = false)

include hE hsame hxn hyn

theorem size_lt_size (h : x.bits < y.bits) : x.val.size < y.val.size := by
  have hexp : x.exp.toNat ≤ y.exp.toNat := by
    rcases bits_lt_iff.mp h with hlt | ⟨heq, -⟩
    · exact hlt.le
    · exact heq.le
  cases hyi : y.isInf with
  | true =>
    rw [val_of_isInf hyi]
    cases hxi : x.isInf with
    | true => exact absurd (hsame (.inr ⟨hxi, hyi⟩)) h.ne
    | false =>
      rw [val, hxn, hxi]
      exact WithTop.coe_lt_top _
  | false =>
    have hxi : x.isInf = false := by
      rw [← Bool.not_eq_true]
      intro hxi
      exact absurd (code_lt hE hyn hyi) (by have := ((isInf_iff hE).mp hxi).1; omega)
    have hyz : y.isZero = false := by
      rw [← Bool.not_eq_true]
      intro hyz
      have hxz : x.isZero = true := (isZero_iff hE).mpr (hexp.trans_lt ((isZero_iff hE).mp hyz))
      exact absurd (hsame (.inl ⟨hxz, hyz⟩)) h.ne
    rw [val, val, hxn, hxi, hyn, hyi, hyz]
    refine WithTop.coe_lt_coe.mpr ?_
    cases hxz : x.isZero with
    | true => exact mag_pos
    | false => exact mag_lt_mag h

omit hE hsame in
theorem size_eq_size (h : x.bits = y.bits) : x.val.size = y.val.size := by
  obtain ⟨hexp, hsig⟩ := bits_eq_iff.mp h
  have hcode : x.expCode = y.expCode := expCode_of_bits h
  have hmag : x.mag = y.mag := by rw [mag, mag, significand, significand, hexp, hsig]
  rw [val, val, hxn, hyn, isInf, isInf, isZero, isZero, hcode, hmag]
  split
  · rfl
  · split <;> rfl

theorem size_lt_size_iff : x.val.size < y.val.size ↔ x.bits < y.bits := by
  refine ⟨fun h => ?_, size_lt_size hE hsame hxn hyn⟩
  rcases lt_trichotomy x.bits y.bits with hlt | heq | hgt
  · exact hlt
  · exact absurd h (size_eq_size hxn hyn heq).not_lt
  · exact absurd h (size_lt_size hE hsame.symm hyn hxn hgt).not_gt

theorem size_eq_size_iff : x.val.size = y.val.size ↔ x.bits = y.bits := by
  refine ⟨fun h => ?_, size_eq_size hxn hyn⟩
  rcases lt_trichotomy x.bits y.bits with hlt | heq | hgt
  · exact absurd h (size_lt_size hE hsame hxn hyn hlt).ne
  · exact heq
  · exact absurd h (size_lt_size hE hsame.symm hyn hxn hgt).ne'

end

end RecFloat

/-! ### What the circuits compute -/

theorem ult_swap {n : ℕ} (u v : BitVec n) : v.ult u = (!u.ult v && !(u == v)) := by
  rw [Bool.eq_iff_iff, Bool.and_eq_true, BitVec.ult_eq_decide, BitVec.ult_eq_decide,
    decide_eq_true_iff, Bool.not_eq_true', Bool.not_eq_true', decide_eq_false_iff_not,
    beq_eq_false_iff_ne, ne_eq, ← BitVec.toNat_inj]
  omega

theorem ult_of_beq {n : ℕ} {u v : BitVec n} (h : (u == v) = true) : u.ult v = false := by
  rw [beq_iff_eq.mp h, BitVec.ult_eq_decide, decide_eq_false (lt_irrefl _)]

variable {s e sigWidth expWidth : ℕ}

/-- An input is this number, wherever its exponent is cut off. -/
structure Reads (a : BitVec (s + e + 1)) (x : RecFloat sigWidth expWidth) : Prop where
  sign : signOf s e a = x.sign
  bits : cat (expOf s e a).toNat s (sigOf s e a).toNat = x.bits
  code : (codeOf s e a).toNat = x.expCode

section

variable {a b : BitVec (s + e + 1)} {x y : RecFloat sigWidth expWidth} (ha : Reads a x)
  (hb : Reads b y)

include ha in
theorem Reads.isZero_eq : (codeOf s e a == 0b000) = x.isZero := by
  rw [isZero, ← ha.code, Bool.eq_iff_iff, beq_iff_eq, decide_eq_true_iff]
  exact ⟨fun h => congrArg BitVec.toNat h, fun h => BitVec.eq_of_toNat_eq h⟩

include ha in
theorem Reads.isNaN_eq : (codeOf s e a == 0b111) = x.isNaN := by
  rw [RecFloat.isNaN, ← ha.code, Bool.eq_iff_iff, beq_iff_eq, decide_eq_true_iff]
  exact ⟨fun h => congrArg BitVec.toNat h, fun h => BitVec.eq_of_toNat_eq h⟩

include ha hb

theorem Reads.equal_eq :
    (expOf s e a == expOf s e b && sigOf s e a == sigOf s e b) = decide (x.bits = y.bits) := by
  rw [← ha.bits, ← hb.bits, Bool.eq_iff_iff, Bool.and_eq_true, beq_iff_eq, beq_iff_eq,
    decide_eq_true_iff]
  constructor
  · rintro ⟨hexp, hsig⟩
    rw [hexp, hsig]
  · intro h
    have hexp := congrArg (· / 2 ^ s) h
    have hsig := congrArg (· % 2 ^ s) h
    simp only [cat_div (sigOf s e a).isLt, cat_div (sigOf s e b).isLt,
      cat_mod (sigOf s e a).isLt, cat_mod (sigOf s e b).isLt] at hexp hsig
    exact ⟨BitVec.eq_of_toNat_eq hexp, BitVec.eq_of_toNat_eq hsig⟩

theorem Reads.less_eq : ((expOf s e a).ult (expOf s e b) ||
    expOf s e a == expOf s e b && (sigOf s e a).ult (sigOf s e b)) =
      decide (x.bits < y.bits) := by
  rw [← ha.bits, ← hb.bits, Bool.eq_iff_iff, Bool.or_eq_true, Bool.and_eq_true, beq_iff_eq,
    decide_eq_true_iff, cat_lt_cat_iff (sigOf s e a).isLt (sigOf s e b).isLt, BitVec.ult_eq_decide,
    BitVec.ult_eq_decide, decide_eq_true_iff, decide_eq_true_iff, BitVec.toNat_inj]

theorem aEqB_eq : (recodedFloatCompare s e a b).aEqB =
    (x.isZero && y.isZero && !(x.sign == y.sign) ||
      (x.sign == y.sign) && decide (x.bits = y.bits) && !x.isNaN) := by
  rw [← ha.equal_eq hb, ← ha.isZero_eq, ← hb.isZero_eq, ← ha.isNaN_eq, ← ha.sign, ← hb.sign]
  simp only [recodedFloatCompare]
  generalize (codeOf s e a == 0b000) = za, (codeOf s e b == 0b000) = zb,
    (codeOf s e a == 0b111) = na, (signOf s e a == signOf s e b) = sameSign,
    (expOf s e a == expOf s e b) = sameExp, (sigOf s e a == sigOf s e b) = sameSig
  revert za zb na sameSign sameExp sameSig
  decide

theorem aLtB_eq : (recodedFloatCompare s e a b).aLtB =
    (!(x.isNaN || y.isNaN) && !(x.isZero && y.isZero && !(x.sign == y.sign)) &&
      if y.sign then x.sign && decide (y.bits < x.bits)
      else x.sign || decide (x.bits < y.bits)) := by
  rw [← ha.less_eq hb, ← hb.less_eq ha, ← ha.isZero_eq, ← hb.isZero_eq, ← ha.isNaN_eq,
    ← hb.isNaN_eq, ← ha.sign, ← hb.sign, ult_swap (expOf s e a), ult_swap (sigOf s e a),
    BEq.comm (a := expOf s e b)]
  simp only [recodedFloatCompare]
  have hexp := ult_of_beq (u := expOf s e a) (v := expOf s e b)
  generalize (expOf s e a == expOf s e b) = sameExp, (sigOf s e a == sigOf s e b) = sameSig,
    (expOf s e a).ult (expOf s e b) = lessExp, (sigOf s e a).ult (sigOf s e b) = lessSig,
    (codeOf s e a == 0b000) = za, (codeOf s e b == 0b000) = zb, (codeOf s e a == 0b111) = na,
    (codeOf s e b == 0b111) = nb at hexp ⊢
  cases signOf s e a <;> cases signOf s e b <;> revert sameExp sameSig lessExp lessSig za zb na nb
  · decide
  · decide
  · decide
  · decide

/-! ### The ordered comparisons -/

variable (hE : 3 ≤ expWidth) (hsame : x.sign = y.sign → RecFloat.SameCode x y)

include hE hsame

omit ha hb in
theorem less_eq_bits (hxn : x.isNaN = false) (hyn : y.isNaN = false) : x.val.less y.val = true ↔
    if y.sign then x.sign = true ∧ y.bits < x.bits
    else if x.sign then ¬(x.isZero = true ∧ y.isZero = true)
    else x.bits < y.bits := by
  rw [FloatDatum.less_iff val_nonneg val_nonneg
    (RecFloat.isNaN_val.trans hxn) (RecFloat.isNaN_val.trans hyn), sign_val hxn,
    sign_val hyn, size_eq_zero_iff hxn, size_eq_zero_iff hyn]
  by_cases hsign : x.sign = y.sign
  · rw [RecFloat.size_lt_size_iff hE (hsame hsign) hxn hyn,
      RecFloat.size_lt_size_iff hE (hsame hsign).symm hyn hxn]
  · cases hx : x.sign with
    | false =>
      have hy : y.sign = true := by grind
      simp [hy]
    | true =>
      have hy : y.sign = false := by grind
      simp [hy]

omit ha hb in
theorem equal_eq_bits (hxn : x.isNaN = false) (hyn : y.isNaN = false) :
    x.val.equal y.val = true ↔
      if x.sign = y.sign then x.bits = y.bits else x.isZero = true ∧ y.isZero = true := by
  rw [FloatDatum.equal_iff val_nonneg val_nonneg
    (RecFloat.isNaN_val.trans hxn) (RecFloat.isNaN_val.trans hyn), sign_val hxn,
    sign_val hyn, size_eq_zero_iff hxn]
  split
  · rename_i hsign
    rw [RecFloat.size_eq_size_iff hE (hsame hsign) hxn hyn]
    exact ⟨And.left, fun h => ⟨h, .inl hsign⟩⟩
  · rename_i hsign
    rw [← size_eq_zero_iff hxn, ← size_eq_zero_iff hyn]
    constructor
    · rintro ⟨hsize, h | h⟩
      · exact absurd h hsign
      · exact ⟨h, hsize ▸ h⟩
    · rintro ⟨hx, hy⟩
      exact ⟨hx.trans hy.symm, .inr hx⟩

theorem recodedFloatCompare_less :
    (recodedFloatCompare s e a b).aLtB = x.val.less y.val := by
  rw [aLtB_eq ha hb]
  by_cases hnan : x.isNaN = true ∨ y.isNaN = true
  · rw [FloatDatum.less_of_isNaN (by rwa [RecFloat.isNaN_val, RecFloat.isNaN_val]),
      (Bool.or_eq_true _ _).mpr hnan]
    rfl
  · obtain ⟨hxn, hyn⟩ := not_or.mp hnan
    rw [Bool.not_eq_true] at hxn hyn
    rw [Bool.eq_iff_iff, less_eq_bits hE hsame hxn hyn, hxn, hyn]
    cases x.sign with
    | false => cases y.sign <;> simp
    | true =>
      cases y.sign with
      | false => cases x.isZero <;> simp
      | true => simp

theorem recodedFloatCompare_equal :
    (recodedFloatCompare s e a b).aEqB = x.val.equal y.val := by
  rw [aEqB_eq ha hb]
  by_cases hnan : x.isNaN = true ∨ y.isNaN = true
  · rw [FloatDatum.equal_of_isNaN (by rwa [RecFloat.isNaN_val, RecFloat.isNaN_val])]
    rcases hnan with hxn | hyn
    · rw [isZero_of_isNaN hxn, hxn]
      simp
    · rw [isZero_of_isNaN hyn]
      by_cases hbits : x.bits = y.bits
      · rw [isNaN_of_bits hbits, hyn]
        simp
      · simp [hbits]
  · obtain ⟨hxn, hyn⟩ := not_or.mp hnan
    rw [Bool.not_eq_true] at hxn hyn
    rw [Bool.eq_iff_iff, equal_eq_bits hE hsame hxn hyn, hxn]
    by_cases hsign : x.sign = y.sign
    · simp [hsign]
    · simp [hsign]

end

end RiscvSoc
