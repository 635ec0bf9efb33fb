import RiscvSoc.Hwacha.IssueTable
import RiscvSoc.Lib.Pipe
import RiscvSoc.Rocket.MulDivMul

/-!
# Integer multiplication in a lane

`LaneMul` from `hwacha/src/main/scala/lane-imul.scala` has one multiplier, of two signed numbers of
65 bits. What the eight functions differ in is how the operands are extended to 65 bits and which
part of the product they take.

A double word is extended by its sign or by zero. A word is extended to a double word that is right
modulo `2 ^ 64`, and its uppermost bit is zero: the product is right modulo `2 ^ 64`, which is all
that both halves of a product of words need.
-/

namespace RiscvSoc

namespace Hwacha

open Bits

structure LaneMulIn where
  valid : Bool
  fn : VAU0Fn
  in0 : BitVec 66
  in1 : BitVec 66

/-- `Fill(32, v)`. -/
def fill32 (v : Bool) : BitVec 32 := if v then BitVec.allOnes 32 else 0

namespace LaneMul

section

variable (x : LaneMulIn)

/-- `FN`. -/
def isFn (dw : BitVec 1) (op : VAU0Op) : Bool := decide (x.fn.dw = dw) && decide (x.fn.op = op.code)

def sxl64 : Bool := isFn x DW64 .mh || isFn x DW64 .mhsu

def sxr64 : Bool := isFn x DW64 .mh

def zxl32 : Bool := isFn x DW32 .mhu

def zxr32 : Bool := isFn x DW32 .mhu || isFn x DW32 .mhsu

def sxl32 : Bool := isFn x DW32 .mh || isFn x DW32 .mhsu

def sxr32 : Bool := isFn x DW32 .mh

/-- An operand on the wires of the multiplier: `sx64`, `zx32` and `sx32` say how it is extended. -/
def operand (n : BitVec 66) (sx64 zx32 sx32 : Bool) : BitVec 65 :=
  BitVec.ofBool (n.getLsbD 63 && sx64) ++
    (fill32 (!zx32) &&& n.extractLsb' 32 32 ||| fill32 (sx32 && n.getLsbD 31)) ++
      n.extractLsb' 0 32

def lhs : BitVec 65 := operand x.in0 (sxl64 x) (zxl32 x) (sxl32 x)

def rhs : BitVec 65 := operand x.in1 (sxr64 x) (zxr32 x) (sxr32 x)

def mulResult : BitVec 130 := BitVec.ofInt 130 ((lhs x).toInt * (rhs x).toInt)

def mulOutputMux : BitVec 64 :=
  let p := mulResult x
  if isFn x DW64 .m then p.extractLsb' 0 64
  else if isFn x DW64 .mh then p.extractLsb' 64 64
  else if isFn x DW64 .mhu then p.extractLsb' 64 64
  else if isFn x DW64 .mhsu then p.extractLsb' 64 64
  else if isFn x DW32 .m then fill32 (p.getLsbD 31) ++ p.extractLsb' 0 32
  else if isFn x DW32 .mh then fill32 (p.getLsbD 63) ++ p.extractLsb' 32 32
  else if isFn x DW32 .mhu then fill32 (p.getLsbD 63) ++ p.extractLsb' 32 32
  else if isFn x DW32 .mhsu then fill32 (p.getLsbD 63) ++ p.extractLsb' 32 32
  else 0

/-- The registers behind the multiplier. -/
def next (pipereg : ℕ → BitVec 64) : ℕ → BitVec 64 :=
  ShiftRegister.next x.valid (mulOutputMux x) pipereg

end

/-- `io.out`, of the last register. -/
def out (pipereg : BitVec 64) : BitVec 66 := pipereg.setWidth 66

end LaneMul

/-! ### What the functions ask for -/

/-- The low half of the product, or the high half of the product of two numbers that are signed or
not. -/
def VAU0Op.product {n : ℕ} (op : VAU0Op) (a b : BitVec n) : BitVec n :=
  match op with
  | m => BitVec.ofInt n (a.toInt * b.toInt)
  | mh => BitVec.ofInt n (a.toInt * b.toInt / 2 ^ n)
  | mhsu => BitVec.ofInt n (a.toInt * b.toNat / 2 ^ n)
  | mhu => BitVec.ofInt n (a.toNat * b.toNat / 2 ^ n)

/-- The function of the scalar unit. -/
def VAU0Op.scalar : VAU0Op → MulDivFn
  | m => .mul
  | mh => .mulh
  | mhsu => .mulhsu
  | mhu => .mulhu

/-- The width of a function. -/
def laneDw : Dw → BitVec 1
  | .dw32 => DW32
  | .dw64 => DW64

/-- The scalar core asks `MulDiv` for the same multiplication. -/
structure SameMul (op : VAU0Op) (x : LaneMulIn) (r : MultiplierReq) : Prop where
  fn : r.fn = op.scalar
  dw : x.fn.dw = laneDw r.dw
  in1 : r.in1 = (x.in0.setWidth 64).toNat
  in2 : r.in2 = (x.in1.setWidth 64).toNat

/-! ### Slices of an integer -/

theorem toInt_modEq {n : ℕ} (a : BitVec n) : a.toInt ≡ a.toNat [ZMOD 2 ^ n] := by
  have h := Int.bmod_emod (x := (a.toNat : ℤ)) (m := 2 ^ n)
  rw [← BitVec.toInt_eq_toNat_bmod] at h
  exact_mod_cast h

theorem toNat_ofInt_eq_wrap (n : ℕ) (z : ℤ) : (BitVec.ofInt n z).toNat = wrap n z := by
  rw [BitVec.toNat_ofInt, wrap]
  norm_cast

/-- A slice depends on the number modulo what lies below its upper end. -/
theorem extractLsb'_ofInt {w i n : ℕ} (hw : n + i ≤ w) {p q : ℤ}
    (h : p ≡ q [ZMOD 2 ^ (n + i)]) :
    (BitVec.ofInt w p).extractLsb' i n = BitVec.ofInt n (q / 2 ^ i) := by
  refine BitVec.eq_of_toNat_eq ?_
  rw [BitVec.extractLsb'_toNat, toNat_ofInt_eq_wrap, toNat_ofInt_eq_wrap, Nat.shiftRight_eq_div_pow]
  calc wrap w p / 2 ^ i % 2 ^ n
      = wrap w p % 2 ^ (n + i) / 2 ^ i := by
        rw [← Nat.mod_mul_right_div_self, ← pow_add, Nat.add_comm]
    _ = wrap (n + i) q / 2 ^ i := by rw [wrap_mod hw, wrap_congr h]
    _ = wrap n (q / 2 ^ i) := wrap_div n i q

theorem fill32_append (x : BitVec 32) : fill32 x.msb ++ x = x.signExtend 64 := by
  rw [BitVec.signExtend_eq_append_of_le (by decide), fill32]
  rfl

/-! ### Operands -/

namespace LaneMul

section

variable {n : BitVec 66}

/-- The uppermost bit is the sign of a signed double word. -/
theorem operand_eq (n : BitVec 66) (sx64 zx32 sx32 : Bool) :
    operand n sx64 zx32 sx32 = BitVec.ofBool (n.getLsbD 63 && sx64) ++
      ((fill32 (!zx32) &&& n.extractLsb' 32 32 ||| fill32 (sx32 && n.getLsbD 31)) ++
        n.extractLsb' 0 32) := by
  rw [operand, BitVec.append_assoc]
  rfl

theorem toInt_ofBool_append {w : ℕ} (b : Bool) (y : BitVec w) :
    (BitVec.ofBool b ++ y).toInt = y.toNat - if b then 2 ^ w else 0 := by
  rw [BitVec.toInt_append]
  cases b <;> simp [BitVec.ofBool] <;> ring

theorem setWidth_eq_append (n : BitVec 66) :
    n.setWidth 64 = n.extractLsb' 32 32 ++ n.extractLsb' 0 32 := by
  rw [BitVec.extractLsb'_append_extractLsb'_eq_extractLsb' (by decide),
    BitVec.setWidth_eq_extractLsb' (by decide)]

theorem toInt_operand_wide (n : BitVec 66) (sx64 : Bool) :
    (operand n sx64 false false).toInt =
      if sx64 then (n.setWidth 64).toInt else ((n.setWidth 64).toNat : ℤ) := by
  have hlow : (fill32 (!false) &&& n.extractLsb' 32 32 ||| fill32 (false && n.getLsbD 31)) ++
      n.extractLsb' 0 32 = n.setWidth 64 := by
    show (BitVec.allOnes 32 &&& _ ||| 0) ++ n.extractLsb' 0 32 = n.setWidth 64
    rw [setWidth_eq_append, BitVec.allOnes_and]
    exact congrArg (· ++ n.extractLsb' 0 32) BitVec.or_zero
  have hmsb : (n.setWidth 64).msb = n.getLsbD 63 := by
    rw [BitVec.msb_eq_getLsbD_last, BitVec.getLsbD_setWidth]
    rfl
  rw [operand_eq, hlow, toInt_ofBool_append, BitVec.toInt_eq_msb_cond, hmsb]
  cases sx64 <;> cases n.getLsbD 63 <;> simp

/-- A word is extended to a double word by its sign or by zero. -/
theorem toInt_operand_word {a : BitVec 32} (hn : n.setWidth 64 = a.signExtend 64) (sx32 : Bool) :
    (operand n false (!sx32) sx32).toInt ≡ (if sx32 then a.toInt else a.toNat) [ZMOD 2 ^ 64] := by
  rw [setWidth_eq_append, ← fill32_append] at hn
  have hlo : n.extractLsb' 0 32 = a := by
    have h := congrArg (BitVec.extractLsb' 0 32) hn
    rwa [BitVec.extractLsb'_append_eq_right, BitVec.extractLsb'_append_eq_right] at h
  have hhi : n.extractLsb' 32 32 = fill32 a.msb := by
    have h := congrArg (BitVec.extractLsb' 32 32) hn
    rwa [BitVec.extractLsb'_append_eq_left, BitVec.extractLsb'_append_eq_left] at h
  have hsign : n.getLsbD 31 = a.msb := by
    rw [← hlo, BitVec.msb_eq_getLsbD_last, BitVec.getLsbD_extractLsb']
    rfl
  rw [operand_eq, toInt_ofBool_append, hhi, hlo, hsign]
  cases sx32 with
  | true =>
    have hword : fill32 (!!true) &&& fill32 a.msb ||| fill32 (true && a.msb) = fill32 a.msb := by
      cases a.msb <;> rfl
    rw [hword, fill32_append, Bool.and_false, if_neg (by simp), sub_zero, if_pos rfl,
      ← BitVec.toInt_signExtend_of_le (show 32 ≤ 64 by decide)]
    exact (toInt_modEq _).symm
  | false =>
    have hword : fill32 (!!false) &&& fill32 a.msb ||| fill32 (false && a.msb) = 0 := by
      cases a.msb <;> rfl
    rw [hword, Bool.and_false, if_neg (by simp), sub_zero, if_neg (by simp),
      BitVec.toNat_append]
    simp

end

/-! ### Functions -/

variable {x : LaneMulIn} {op : VAU0Op}

theorem fill32_getLsbD {w : ℕ} (p : BitVec w) (i : ℕ) :
    fill32 (p.getLsbD (i + 31)) ++ p.extractLsb' i 32 = (p.extractLsb' i 32).signExtend 64 := by
  rw [← fill32_append, BitVec.msb_eq_getLsbD_last, BitVec.getLsbD_extractLsb']
  rfl

theorem mulOutputMux_wide (hdw : x.fn.dw = DW64) (hop : x.fn.op = op.code) :
    mulOutputMux x = match op with
      | .m => (mulResult x).extractLsb' 0 64
      | _ => (mulResult x).extractLsb' 64 64 := by
  simp only [mulOutputMux, isFn, hdw, hop]
  cases op <;> rfl

theorem mulOutputMux_word (hdw : x.fn.dw = DW32) (hop : x.fn.op = op.code) :
    mulOutputMux x = match op with
      | .m => ((mulResult x).extractLsb' 0 32).signExtend 64
      | _ => ((mulResult x).extractLsb' 32 32).signExtend 64 := by
  rw [← fill32_getLsbD, ← fill32_getLsbD]
  simp only [mulOutputMux, isFn, hdw, hop]
  cases op <;> rfl

/-- The low half of a product is the same for signed and unsigned numbers. -/
theorem slice_low {a b : ℤ} {n m : ℕ} {u v : BitVec n} (hn : n ≤ m)
    (ha : a ≡ u.toNat [ZMOD 2 ^ n]) (hb : b ≡ v.toNat [ZMOD 2 ^ n]) :
    (BitVec.ofInt m (a * b)).extractLsb' 0 n = VAU0Op.product .m u v := by
  have hmul : a * b ≡ u.toInt * v.toInt [ZMOD 2 ^ n] :=
    (ha.trans (toInt_modEq u).symm).mul (hb.trans (toInt_modEq v).symm)
  have h := extractLsb'_ofInt (w := m) (i := 0) (n := n) hn hmul
  rwa [pow_zero, Int.ediv_one] at h

theorem mulOutputMux_eq_product (hdw : x.fn.dw = DW64) (hop : x.fn.op = op.code) :
    mulOutputMux x = op.product (x.in0.setWidth 64) (x.in1.setWidth 64) := by
  have hhigh (l r : Bool) : (BitVec.ofInt 130 ((operand x.in0 l false false).toInt *
      (operand x.in1 r false false).toInt)).extractLsb' 64 64 = BitVec.ofInt 64
        ((if l then (x.in0.setWidth 64).toInt else ((x.in0.setWidth 64).toNat : ℤ)) *
          (if r then (x.in1.setWidth 64).toInt else ((x.in1.setWidth 64).toNat : ℤ)) / 2 ^ 64) := by
    rw [← toInt_operand_wide, ← toInt_operand_wide]
    exact extractLsb'_ofInt (by decide) (Int.ModEq.refl _)
  rw [mulOutputMux_wide hdw hop, mulResult]
  simp only [lhs, rhs, sxl64, sxr64, zxl32, zxr32, sxl32, sxr32, isFn, hdw, hop]
  cases op with
  | m =>
    exact slice_low (by decide) (congrArg (· % _) (toInt_operand_wide x.in0 false))
      (congrArg (· % _) (toInt_operand_wide x.in1 false))
  | mh => exact hhigh true true
  | mhsu => exact hhigh true false
  | mhu => exact hhigh false false

/-- The low half of the product of two words, whatever is above them. -/
theorem mulOutputMux_eq_product_low (hdw : x.fn.dw = DW32) (hop : x.fn.op = VAU0Op.m.code) :
    mulOutputMux x =
      (VAU0Op.product .m (x.in0.setWidth 32) (x.in1.setWidth 32)).signExtend 64 := by
  have hlow (n : BitVec 66) :
      (operand n false false false).toInt ≡ (n.setWidth 32).toNat [ZMOD 2 ^ 32] := by
    rw [toInt_operand_wide, if_neg (by simp), BitVec.toNat_setWidth, BitVec.toNat_setWidth,
      Int.natCast_emod, Int.natCast_emod]
    exact (Int.emod_emod_of_dvd _ (by norm_num)).trans (Int.emod_emod_of_dvd _ dvd_rfl).symm
  rw [mulOutputMux_word hdw hop, mulResult]
  simp only [lhs, rhs, sxl64, sxr64, zxl32, zxr32, sxl32, sxr32, isFn, hdw, hop]
  exact congrArg _ (slice_low (by decide) (hlow x.in0) (hlow x.in1))

/-- The product of two words that are extended by their signs. -/
theorem mulOutputMux_eq_product_word {a b : BitVec 32} (hdw : x.fn.dw = DW32)
    (hop : x.fn.op = op.code) (ha : x.in0.setWidth 64 = a.signExtend 64)
    (hb : x.in1.setWidth 64 = b.signExtend 64) :
    mulOutputMux x = (op.product a b).signExtend 64 := by
  have hhigh (l r : Bool) : (BitVec.ofInt 130 ((operand x.in0 false (!l) l).toInt *
      (operand x.in1 false (!r) r).toInt)).extractLsb' 32 32 = BitVec.ofInt 32
        ((if l then a.toInt else (a.toNat : ℤ)) *
          (if r then b.toInt else (b.toNat : ℤ)) / 2 ^ 32) :=
    extractLsb'_ofInt (by decide) ((toInt_operand_word ha l).mul (toInt_operand_word hb r))
  have hlow {n : BitVec 66} {a : BitVec 32} (h : n.setWidth 64 = a.signExtend 64) :
      n.setWidth 32 = a := by
    rw [← BitVec.setWidth_setWidth_of_le n (show 32 ≤ 64 by decide), h, ← fill32_append,
      BitVec.setWidth_append_eq_right]
  by_cases hm : op = .m
  · subst hm
    rw [mulOutputMux_eq_product_low hdw hop, hlow ha, hlow hb]
  · rw [mulOutputMux_word hdw hop, mulResult]
    simp only [lhs, rhs, sxl64, sxr64, zxl32, zxr32, sxl32, sxr32, isFn, hdw, hop]
    cases op with
    | m => exact absurd rfl hm
    | mh => exact congrArg (BitVec.signExtend 64) (hhigh true true)
    | mhsu => exact congrArg (BitVec.signExtend 64) (hhigh true false)
    | mhu => exact congrArg (BitVec.signExtend 64) (hhigh false false)

/-! ### The scalar unit -/

theorem signed_toNat {n : ℕ} (hn : 0 < n) (a : BitVec n) : signed n a.toNat = a.toInt := by
  have hpow : 2 ^ n = 2 * 2 ^ (n - 1) := by rw [← pow_succ', Nat.sub_add_cancel hn]
  rw [signed, BitVec.toInt_eq_toNat_cond]
  refine if_congr ?_ rfl (by push_cast; rfl)
  omega

theorem toS_wide (a : BitVec 64) : Dw.toS .dw64 a.toNat = a.toInt := by
  show signed 64 (a.toNat % 2 ^ 64) = a.toInt
  rw [Nat.mod_eq_of_lt a.isLt, signed_toNat (by decide)]

theorem toU_wide (a : BitVec 64) : Dw.toU .dw64 a.toNat = a.toNat := by
  show ((a.toNat % 2 ^ 64 : ℕ) : ℤ) = a.toNat
  rw [Nat.mod_eq_of_lt a.isLt]

theorem result_wide (z : ℤ) : Dw.result .dw64 z = (BitVec.ofInt 64 z).toNat := by
  rw [toNat_ofInt_eq_wrap]
  exact wrap_signed (wrap_lt 64 z)

theorem toS_word (n : BitVec 66) :
    Dw.toS .dw32 (n.setWidth 64).toNat = (n.setWidth 32).toInt := by
  have hlow : (n.setWidth 64).toNat % 2 ^ 32 = (n.setWidth 32).toNat := by
    rw [← BitVec.toNat_setWidth, BitVec.setWidth_setWidth_of_le n (by decide)]
  show signed 32 ((n.setWidth 64).toNat % 2 ^ 32) = _
  rw [hlow, signed_toNat (by decide)]

theorem result_word (z : ℤ) :
    Dw.result .dw32 z = ((BitVec.ofInt 32 z).signExtend 64).toNat := by
  have hint : signed 32 (wrap 32 z) = ((BitVec.ofInt 32 z).signExtend 64).toInt := by
    rw [BitVec.toInt_signExtend_of_le (by decide), ← signed_toNat (by decide),
      toNat_ofInt_eq_wrap]
  show wrap 64 (signed 32 (wrap 32 z)) = _
  rw [hint, ← signed_toNat (by decide), wrap_signed (BitVec.isLt _)]

/-- A lane multiplies as the instruction set asks the scalar core to do. -/
theorem mulOutputMux_eq_riscvResult {r : MultiplierReq} (hop : x.fn.op = op.code)
    (hsame : SameMul op x r) (hr : r.IsMulInstr) : (mulOutputMux x).toNat = riscvResult r := by
  obtain ⟨fn, dw, in1, in2, tag⟩ := r
  obtain ⟨hfn, hdw, hin1, hin2⟩ := hsame
  dsimp only at hfn hdw hin1 hin2
  subst hfn hin1 hin2
  cases dw with
  | dw64 =>
    rw [mulOutputMux_eq_product hdw hop]
    cases op <;>
      simp only [riscvResult, VAU0Op.scalar, toS_wide, toU_wide, result_wide] <;> rfl
  | dw32 =>
    cases op with
    | m =>
      rw [mulOutputMux_eq_product_low hdw hop]
      simp only [riscvResult, VAU0Op.scalar, toS_word, result_word]
      rfl
    | mh | mhsu | mhu =>
      -- Only the low half has a word form.
      rcases hr with h | ⟨h, -⟩ <;> cases h

/-! ### The pipeline -/

/-- **A lane multiplies.** In every run of the shift register, what comes out for a function is the
half of the exact product it asks for, of double words or of words that are extended by their signs,
and it is what `MulDiv` responds to the same multiply instruction. -/
theorem multiplies {st : ℕ → ℕ → BitVec 64} {x : ℕ → LaneMulIn}
    (hrun : ∀ t, st (t + 1) = next (x t) (st t)) {t : ℕ} (hvalid : (x t).valid = true)
    {op : VAU0Op} (hop : (x t).fn.op = op.code) (k : ℕ) :
    ((x t).fn.dw = DW64 → out (st (t + 1 + k) k) =
      (op.product ((x t).in0.setWidth 64) ((x t).in1.setWidth 64)).setWidth 66) ∧
    (∀ a b : BitVec 32, (x t).fn.dw = DW32 → (x t).in0.setWidth 64 = a.signExtend 64 →
      (x t).in1.setWidth 64 = b.signExtend 64 →
        out (st (t + 1 + k) k) = ((op.product a b).signExtend 64).setWidth 66) ∧
    ∀ (conf : MulDivConfig) (s : MulDiv) (io : ℕ → MulDivIn), s.reqFire (io 0) →
      (∀ n, (io (n + 1)).kill = false) → (io 0).req.IsMulInstr → SameMul op (x t) (io 0).req →
        ∃ n, MulDiv.Responds conf s io n (out (st (t + 1 + k) k)).toNat := by
  have hshift : ∀ t, st (t + 1) = ShiftRegister.next (x t).valid (mulOutputMux (x t)) (st t) := hrun
  have hout : st (t + 1 + k) k = mulOutputMux (x t) := ShiftRegister.delivers hshift hvalid k
  rw [hout]
  refine ⟨fun hdw => ?_, fun a b hdw ha hb => ?_, fun conf s io hfire hkill hr hsame => ?_⟩
  · rw [mulOutputMux_eq_product hdw hop]
    rfl
  · rw [mulOutputMux_eq_product_word hdw hop ha hb]
    rfl
  · have hnat : (out (mulOutputMux (x t))).toNat = riscvResult (io 0).req := by
      rw [← mulOutputMux_eq_riscvResult hop hsame hr, out, BitVec.toNat_setWidth_of_le (by decide)]
    rw [hnat]
    exact MulDiv.responds_of_isMulInstr conf s io hfire hkill hr

/-- The high half of minus two times three, the latter unsigned, which the scalar unit computes
eight bits a cycle. -/
def minusTwoTimesThree : LaneMulIn := ⟨true, ⟨DW64, VAU0Op.mhsu.code⟩, 0xFFFFFFFFFFFFFFFE, 3⟩

/-- The registers when the same operation enters in each cycle. -/
def steady (x : LaneMulIn) : ℕ → ℕ → BitVec 64
  | 0 => fun _ => 0
  | t + 1 => next x (steady x t)

theorem multiplies_mhsu :
    out (steady minusTwoTimesThree 3 2) = 0xFFFFFFFFFFFFFFFF ∧
      ∃ n, MulDiv.Responds ⟨8, true, false, true, by decide⟩ .reset
        (.hold ⟨.mulhsu, .dw64, 2 ^ 64 - 2, 3, 0⟩) n
          (out (steady minusTwoTimesThree 3 2)).toNat := by
  have hrun : ∀ t, steady minusTwoTimesThree (t + 1) =
      next minusTwoTimesThree (steady minusTwoTimesThree t) := fun _ => rfl
  have hop : minusTwoTimesThree.fn.op = VAU0Op.mhsu.code := rfl
  have h := multiplies hrun (t := 0) rfl hop 2
  exact ⟨h.1 rfl, h.2.2 _ _ _ rfl (fun _ => rfl) (by decide) ⟨rfl, rfl, rfl, rfl⟩⟩

end LaneMul

end Hwacha

end RiscvSoc
