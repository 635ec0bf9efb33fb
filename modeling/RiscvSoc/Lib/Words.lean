import Mathlib.Data.BitVec

/-!
# Bit vectors as a circuit handles them

What the usual circuits for sign extension, shifting and comparing compute: copies of the sign bit
put in front, a right shifter that shifts left between two reversals, a subtraction whose sign tells
which operand is less.
-/

namespace RiscvSoc

/-! ### Sign extension -/

theorem setWidth_signExtend {m n k : ℕ} (x : BitVec m) (h : k ≤ n) :
    (x.signExtend n).setWidth k = x.signExtend k := by
  apply BitVec.eq_of_getLsbD_eq
  intro i hi
  have hn : i < n := hi.trans_le h
  simp only [BitVec.getLsbD_setWidth, BitVec.getLsbD_signExtend, hi, hn, decide_true,
    Bool.true_and]

theorem signExtend_signExtend {m n k : ℕ} (x : BitVec m) (h : m < n) :
    (x.signExtend n).signExtend k = x.signExtend k := by
  apply BitVec.eq_of_getLsbD_eq
  intro i hi
  simp only [BitVec.getLsbD_signExtend, BitVec.msb_signExtend, if_neg (show ¬m ≥ n by omega), hi,
    decide_true, Bool.true_and]
  by_cases hn : i < n
  · simp [hn]
  · rw [if_neg hn, if_neg (by omega), decide_eq_true (Nat.zero_lt_of_lt h), Bool.true_and]

theorem fill_append {n k : ℕ} (x : BitVec n) (s : Bool) :
    BitVec.fill k (s && x.getLsbD (n - 1)) ++ x
      = (if s then x.signExtend (k + n) else x.setWidth (k + n)) := by
  refine BitVec.eq_of_getLsbD_eq fun i hi => ?_
  rw [BitVec.getLsbD_append, BitVec.getLsbD_fill]
  by_cases hin : i < n
  · rw [if_pos hin]
    cases s
    · rw [if_neg (by simp), BitVec.getLsbD_setWidth, decide_eq_true hi, Bool.true_and]
    · rw [if_pos rfl, BitVec.getLsbD_signExtend, decide_eq_true hi, Bool.true_and, if_pos hin]
  · rw [if_neg hin, decide_eq_true (show i - n < k by omega)]
    cases s
    · rw [if_neg (by simp), BitVec.getLsbD_setWidth,
        BitVec.getLsbD_of_ge x i (Nat.not_lt.mp hin)]
      simp
    · rw [if_pos rfl, BitVec.getLsbD_signExtend, decide_eq_true hi, if_neg hin,
        BitVec.msb_eq_getLsbD_last]
      simp

theorem append_extract {k n : ℕ} (x : BitVec (k + n)) :
    x.extractLsb' n k ++ x.extractLsb' 0 n = x := BitVec.extractLsb'_append_extractLsb'

/-! ### Shifts -/

variable {w : ℕ} (a b : BitVec w)

theorem reverse_ushiftRight_reverse (x : BitVec w) (n : ℕ) :
    (x.reverse >>> n).reverse = x <<< n := by
  apply BitVec.eq_of_getLsbD_eq
  intro i hi
  rw [BitVec.getLsbD_reverse, BitVec.getMsbD_eq_getLsbD, BitVec.getLsbD_ushiftRight,
    BitVec.getLsbD_reverse, BitVec.getMsbD_eq_getLsbD, BitVec.getLsbD_shiftLeft]
  by_cases hn : i < n
  · simp [hi, hn]
    omega
  · have hin : w - 1 - (n + (w - 1 - i)) = i - n := by omega
    have hlt : n + (w - 1 - i) < w := by omega
    simp [hi, hn, hin, hlt]

theorem setWidth_sshiftRight_signExtend {v w : ℕ} (x : BitVec v) (h : v ≤ w) (n : ℕ) :
    ((x.signExtend w).sshiftRight n).setWidth v = x.sshiftRight n := by
  apply BitVec.eq_of_getLsbD_eq
  intro i hi
  have hw : ¬w ≤ i := by omega
  have hmsb : (x.signExtend w).msb = x.msb := by
    rcases h.lt_or_eq with h' | rfl
    · rw [BitVec.msb_signExtend, if_neg (by omega), decide_eq_true (by omega), Bool.true_and]
    · rw [BitVec.signExtend_eq]
  rw [BitVec.getLsbD_setWidth, BitVec.getLsbD_sshiftRight, BitVec.getLsbD_sshiftRight,
    BitVec.getLsbD_signExtend, hmsb]
  by_cases hn : n + i < v
  · simp [hi, hw, hn, show n + i < w by omega]
  · have hv : ¬v ≤ i := by omega
    by_cases hn' : n + i < w <;> simp [hi, hw, hv, hn, hn']

theorem setWidth_ushiftRight_setWidth {v w : ℕ} (x : BitVec v) (h : v ≤ w) (n : ℕ) :
    ((x.setWidth w) >>> n).setWidth v = x >>> n := by
  apply BitVec.eq_of_getLsbD_eq
  intro i hi
  rw [BitVec.getLsbD_setWidth, BitVec.getLsbD_ushiftRight, BitVec.getLsbD_ushiftRight,
    BitVec.getLsbD_setWidth]
  by_cases hn : n + i < w
  · simp [hi, hn]
  · simp [hn, BitVec.getLsbD_of_ge x (n + i) (by omega)]

/-- The bit put before the operand decides what is shifted in. -/
theorem sshiftRight_ofBool_append (s : Bool) (x : BitVec w) (n : ℕ) :
    ((BitVec.ofBool (s && x.getLsbD (w - 1)) ++ x).sshiftRight n).setWidth w =
      if s then x.sshiftRight n else x >>> n := by
  have hmsb : (BitVec.ofBool (s && x.getLsbD (w - 1)) ++ x).msb = (s && x.getLsbD (w - 1)) := by
    rw [BitVec.msb_append]
    cases s && x.getLsbD (w - 1) <;> rfl
  apply BitVec.eq_of_getLsbD_eq
  intro i hi
  have hi' : i < 1 + w := by omega
  have hle : ¬1 + w ≤ i := by omega
  rw [BitVec.getLsbD_setWidth, BitVec.getLsbD_sshiftRight, hmsb, BitVec.getLsbD_append,
    apply_ite (fun y : BitVec w => y.getLsbD i), BitVec.getLsbD_sshiftRight,
    BitVec.getLsbD_ushiftRight, BitVec.msb_eq_getLsbD_last]
  by_cases hn : n + i < w
  · have hn' : n + i < 1 + w := by omega
    simp [hi, hle, hn, hn']
  · have hx : x.getLsbD (n + i) = false := BitVec.getLsbD_of_ge x _ (by omega)
    by_cases hn' : n + i < 1 + w
    · have h0 : n + i - w = 0 := by omega
      cases s <;> simp [hi, hle, hn, hn', hx, h0]
    · cases s <;> simp [hi, hle, hn, hn', hx]

/-! ### Additions -/

/-- An adder subtracts when its second operand is complemented and a carry comes in, here from a bit
below both operands. -/
theorem add_carry {n : ℕ} (a b : BitVec n) (s : Bool) :
    ((a ++ BitVec.ofBool s) + ((b ^^^ BitVec.fill n s) ++ BitVec.ofBool s)).extractLsb' 1 n =
      if s then a - b else a + b := by
  have hcat (c : BitVec n) : (c ++ BitVec.ofBool s).toNat = 2 * c.toNat + s.toNat := by
    rw [BitVec.toNat_append, BitVec.toNat_ofBool, ← Nat.shiftLeft_add_eq_or_of_lt s.toNat_lt,
      Nat.shiftLeft_eq]
    omega
  refine BitVec.eq_of_toNat_eq ?_
  rw [BitVec.extractLsb'_toNat, BitVec.toNat_add, hcat, hcat, Nat.shiftRight_eq_div_pow, pow_one,
    pow_succ, Nat.mod_mul_left_div_self, Nat.mod_mod]
  cases s with
  | false =>
    have hfill : b ^^^ BitVec.fill n false = b := by simp
    rw [hfill, if_neg (by simp), BitVec.toNat_add]
    congr 1
    simp only [Bool.toNat_false]
    omega
  | true =>
    have hfill : b ^^^ BitVec.fill n true = ~~~b := by simp
    have hb := b.isLt
    rw [hfill, if_pos rfl, BitVec.toNat_sub, BitVec.toNat_not]
    congr 1
    simp only [Bool.toNat_true]
    omega

/-! ### Comparisons -/

/-- Where the signs agree the sign of the difference tells which operand is less. -/
theorem msb_sub_of_msb_eq {a b : BitVec w} (h : a.msb = b.msb) :
    (a - b).msb = a.ult b := by
  rcases w with _ | w
  · rw [BitVec.of_length_zero (x := a), BitVec.of_length_zero (x := b)]
    rfl
  · have ha := a.isLt
    have hb := b.isLt
    have hpow : 2 ^ (w + 1) = 2 * 2 ^ w := Nat.pow_succ'
    rw [BitVec.msb_eq_decide, BitVec.msb_eq_decide, decide_eq_decide, Nat.add_sub_cancel] at h
    rw [BitVec.msb_eq_decide, BitVec.ult_eq_decide, decide_eq_decide, BitVec.toNat_sub,
      Nat.add_sub_cancel]
    rcases Nat.lt_or_ge a.toNat b.toNat with hlt | hge
    · rw [Nat.mod_eq_of_lt (by omega)]
      omega
    · rw [Nat.mod_eq_sub_mod (by omega), Nat.mod_eq_of_lt (by omega)]
      omega

theorem ult_of_sub :
    (if a.msb == b.msb then (a - b).msb else b.msb) = a.ult b := by
  by_cases h : a.msb = b.msb
  · rw [if_pos (beq_iff_eq.2 h), msb_sub_of_msb_eq h]
  · rw [if_neg (by rwa [beq_iff_eq]), BitVec.ult_eq_msb_of_msb_neq h]

theorem slt_of_sub :
    (if a.msb == b.msb then (a - b).msb else a.msb) = a.slt b := by
  by_cases h : a.msb = b.msb
  · rw [if_pos (beq_iff_eq.2 h), msb_sub_of_msb_eq h, BitVec.slt_eq_ult_of_msb_eq h]
  · rw [if_neg (by rwa [beq_iff_eq]), BitVec.slt_eq_not_ult_of_msb_neq h,
      BitVec.ult_eq_msb_of_msb_neq h]
    revert h
    cases a.msb <;> cases b.msb <;> simp

/-- Where the signs agree the order is that of the numbers without signs. -/
theorem slt_of_ult :
    (a.msb == b.msb && a.ult b || a.msb && !b.msb) = a.slt b := by
  by_cases h : a.msb = b.msb
  · rw [BitVec.slt_eq_ult_of_msb_eq h, h]
    cases b.msb <;> simp
  · rw [BitVec.slt_eq_not_ult_of_msb_neq h, BitVec.ult_eq_msb_of_msb_neq h]
    revert h
    cases a.msb <;> cases b.msb <;> simp

/-- Two numbers with the same upper part are compared by their lower parts. -/
theorem ult_of_upper {k n : ℕ} {u v : BitVec (k + n)}
    (h : u.extractLsb' n k = v.extractLsb' n k) : u.ult v = (u.setWidth n).ult (v.setWidth n) := by
  have hdiv (w : BitVec (k + n)) : (w.extractLsb' n k).toNat = w.toNat / 2 ^ n := by
    have hw := w.isLt
    rw [pow_add, Nat.mul_comm] at hw
    rw [BitVec.extractLsb'_toNat, Nat.shiftRight_eq_div_pow,
      Nat.mod_eq_of_lt (Nat.div_lt_of_lt_mul hw)]
  have hupper : u.toNat / 2 ^ n = v.toNat / 2 ^ n := by rw [← hdiv, ← hdiv, h]
  have hu := Nat.div_add_mod u.toNat (2 ^ n)
  have hv := Nat.div_add_mod v.toNat (2 ^ n)
  rw [hupper] at hu
  rw [BitVec.ult_eq_decide, BitVec.ult_eq_decide, BitVec.toNat_setWidth, BitVec.toNat_setWidth]
  exact decide_eq_decide.mpr (by omega)

end RiscvSoc
