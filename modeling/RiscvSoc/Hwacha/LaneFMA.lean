import RiscvSoc.Hardfloat.MulAdd
import RiscvSoc.Hardfloat.RoundTrip
import RiscvSoc.Hwacha.Issue
import RiscvSoc.Lib.Pipe

/-!
# Floating-point arithmetic in a lane

A vector register has 66 bits. In it are one double, or one or two singles, both recoded, or up to
four halves, which are not. The places that are not used are filled with ones, unless the lanes are
configured for packed numbers.

`LaneFMA` does everything with fused units. An addition multiplies with one. A multiplication adds
zero, and this zero is positive whatever the sign of the product is. The scalar unit gives it the
sign of the product. The fused units have four rounding modes and are told the lower two bits of the
mode of the instruction.
-/

namespace RiscvSoc

namespace Hwacha

/-! ### Places in a register -/

namespace Compaction

def repackFloatD (n : BitVec 65) : BitVec 66 := (1 : BitVec 1) ++ n

def repackFloatS (n0 n1 : BitVec 33) : BitVec 66 :=
  n1.extractLsb' 32 1 ++ n0.extractLsb' 32 1 ++ n1.extractLsb' 0 32 ++ n0.extractLsb' 0 32

def repackFloatH (n0 n1 n2 n3 : BitVec 16) : BitVec 66 := (0b11 : BitVec 2) ++ n3 ++ n2 ++ n1 ++ n0

/-- `pack_float_h`, into the lowest place. -/
def packFloatH (n : BitVec 16) : BitVec 66 := (0x3FFFFFFFFFFFF : BitVec 50) ++ n

def unpackFloatD (n : BitVec 66) : BitVec 65 := n.extractLsb' 0 65

def unpackFloatS (n : BitVec 66) (i : ℕ) : BitVec 33 :=
  n.extractLsb' (64 + i) 1 ++ n.extractLsb' (32 * i) 32

def unpackFloatH (n : BitVec 66) (i : ℕ) : BitVec 16 := n.extractLsb' (16 * i) 16

end Compaction

open Compaction Issue

/-- The bits of a recoded number, read. -/
def recOfBits {sigWidth expWidth : ℕ} (b : BitVec (1 + expWidth + sigWidth)) :
    RecFloat sigWidth expWidth where
  sign := b.getLsbD (expWidth + sigWidth)
  exp := b.extractLsb' sigWidth expWidth
  sig := b.extractLsb' 0 sigWidth

/-- A half, read. -/
def halfOfBits (b : BitVec 16) : FloatN 10 6 :=
  ⟨b.getLsbD 15, b.extractLsb' 10 5, b.extractLsb' 0 10⟩

def halfBits (x : FloatN 10 6) : BitVec 16 := BitVec.ofBool x.sign ++ x.exp ++ x.fract

/-! ### The unit -/

/-- The fused units. -/
structure FusedUnits where
  dfma : MulAddSub 52 12
  sfma : MulAddSub 23 9
  hfma : MulAddSub 10 6

structure LaneFMAIn where
  valid : Bool
  fn : VAU1Fn
  in0 : BitVec 66
  in1 : BitVec 66
  in2 : BitVec 66

namespace LaneFMA

/-- `Fill(n, v) & x`. -/
def fill {n : ℕ} (v : Bool) (x : BitVec n) : BitVec n := if v then x else 0

def oneDp : BitVec 66 := repackFloatD 0x8000000000000000

def oneSp : BitVec 66 := repackFloatS 0x080000000 0x080000000

def oneHp : BitVec 66 := repackFloatH 0x3c00 0x3c00 0x3c00 0x3c00

section

variable (c : HwachaConfiguration) (u : FusedUnits) (x : LaneFMAIn)

/-- `OP`, for one operation. -/
def isOp (op : VAU1Op) : Bool := decide (x.fn.op = op.code)

/-- `FP`. -/
def isFp (fp : BitVec 2) : Bool := decide (x.fn.fp = fp)

def fmaOp : BitVec 2 :=
  if isOp x .sub || isOp x .msub then 0b01
  else if isOp x .nmsub then 0b10
  else if isOp x .nmadd then 0b11
  else 0b00

def multiplicand : BitVec 66 := x.in0

def multiplier : BitVec 66 :=
  if isFp x FPD && (isOp x .add || isOp x .sub) then oneDp
  else if isFp x FPS && (isOp x .add || isOp x .sub) then oneSp
  else if isFp x FPH && (isOp x .add || isOp x .sub) then oneHp
  else if isOp x .mul then x.in2
  else x.in1

def addend : BitVec 66 := if isOp x .mul then 0 else x.in2

def valDp : Bool := x.valid && isFp x FPD

def valSp : Bool := x.valid && isFp x FPS

def valHp : Bool := x.valid && isFp x FPH

/-- `dfma.io`. -/
def dfma : RecFloat 52 12 × BitVec 5 :=
  u.dfma (fill (valDp x) (fmaOp x))
    (recOfBits (fill (valDp x) (unpackFloatD (multiplicand x))))
    (recOfBits (fill (valDp x) (unpackFloatD (multiplier x))))
    (recOfBits (fill (valDp x) (unpackFloatD (addend x))))
    ((fill (valDp x) x.fn.rm).setWidth 2)

/-- `sfma.io` and `sfma1.io`. -/
def sfma (i : ℕ) : RecFloat 23 9 × BitVec 5 :=
  u.sfma (fill (valSp x) (fmaOp x))
    (recOfBits (fill (valSp x) (unpackFloatS (multiplicand x) i)))
    (recOfBits (fill (valSp x) (unpackFloatS (multiplier x) i)))
    (recOfBits (fill (valSp x) (unpackFloatS (addend x) i)))
    ((fill (valSp x) x.fn.rm).setWidth 2)

/-- `recoded_hp_a` and so on. -/
def recodedHp (n : BitVec 66) (i : ℕ) : BitVec 17 :=
  recBits (floatNToRecodedFloatN (halfOfBits (unpackFloatH n i)))

/-- `hfma.io` to `hfma3.io`. -/
def hfma (i : ℕ) : RecFloat 10 6 × BitVec 5 :=
  u.hfma (fill (valHp x) (fmaOp x))
    (recOfBits (fill (valHp x) (recodedHp (multiplicand x) i)))
    (recOfBits (fill (valHp x) (recodedHp (multiplier x) i)))
    (recOfBits (fill (valHp x) (recodedHp (addend x) i)))
    ((fill (valHp x) x.fn.rm).setWidth 2)

def resultHp (i : ℕ) : BitVec 16 := halfBits (recodedFloatNToFloatN (hfma u x i).1)

/-- What enters the shift register: the flags and the register. -/
def result : BitVec 71 :=
  if c.confprec then
    if valDp x then (dfma u x).2 ++ repackFloatD (recBits (dfma u x).1)
    else if valSp x then ((sfma u x 0).2 ||| (sfma u x 1).2) ++
      repackFloatS (recBits (sfma u x 0).1) (recBits (sfma u x 1).1)
    else if valHp x then
      ((hfma u x 0).2 ||| (hfma u x 1).2 ||| (hfma u x 2).2 ||| (hfma u x 3).2) ++
        repackFloatH (resultHp u x 0) (resultHp u x 1) (resultHp u x 2) (resultHp u x 3)
    else 0x3FFFFFFFFFFFFFFFFF
  else
    if valDp x then (dfma u x).2 ++ packFloatD (recBits (dfma u x).1)
    else if valSp x then (sfma u x 0).2 ++ packFloatS (recBits (sfma u x 0).1)
    else if valHp x then (hfma u x 0).2 ++ packFloatH (resultHp u x 0)
    else 0x3FFFFFFFFFFFFFFFFF

/-- `pipereg`. -/
def next (pipereg : ℕ → BitVec 71) : ℕ → BitVec 71 :=
  ShiftRegister.next x.valid (result c u x) pipereg

end

/-- `io.out`, of the last register. -/
def out (pipereg : BitVec 71) : BitVec 66 := pipereg.extractLsb' 0 66

/-- `io.exc`. -/
def exc (pipereg : BitVec 71) : BitVec 5 := pipereg.extractLsb' 66 5

/-! ### What a register holds -/

inductive Precision
  | double
  | single
  | half

namespace Precision

def code : Precision → BitVec 2
  | double => FPD
  | single => FPS
  | half => FPH

/-- How many numbers there are in a register. -/
def slots (confprec : Bool) : Precision → ℕ
  | double => 1
  | single => if confprec then 2 else 1
  | half => if confprec then 4 else 1

def format : Precision → FloatFormat
  | double => recFormat 52 12
  | single => recFormat 23 9
  | half => recFormat 10 6

end Precision

def recD (w : BitVec 66) : RecFloat 52 12 := recOfBits (unpackFloatD w)

def recS (i : ℕ) (w : BitVec 66) : RecFloat 23 9 := recOfBits (unpackFloatS w i)

def recH (i : ℕ) (w : BitVec 66) : RecFloat 10 6 :=
  floatNToRecodedFloatN (halfOfBits (unpackFloatH w i))

/-- Number `i` of a register. -/
def datum (p : Precision) (i : ℕ) (w : BitVec 66) : FloatDatum :=
  match p with
  | .double => (recD w).val
  | .single => (recS i w).val
  | .half => (halfOfBits (unpackFloatH w i)).val

/-- It is a number of the format. A half can be nothing else. -/
def WellFormed (p : Precision) (i : ℕ) (w : BitVec 66) : Prop :=
  match p with
  | .double => (recD w).WellFormed
  | .single => (recS i w).WellFormed
  | .half => True

/-- The places that are not used are filled with ones. -/
def Boxed (confprec : Bool) (p : Precision) (w : BitVec 66) : Prop :=
  match p with
  | .double => w.extractLsb' 65 1 = 1
  | .single => confprec = false → w.extractLsb' 65 1 = 1 ∧ w.extractLsb' 32 32 = 0xFFFFFFFF
  | .half => w.extractLsb' 64 2 = 0b11 ∧
      (confprec = false → w.extractLsb' 16 48 = 0xFFFFFFFFFFFF)

/-- What an operation would deliver without rounding. -/
def exact (mode : RoundingMode) (op : VAU1Op) (in0 in1 in2 : FloatDatum) : FloatDatum :=
  match op with
  | .add => in0.add mode in2
  | .sub => in0.add mode in2.neg
  | .mul => in0.mul in2
  | .madd => (in0.mul in1).add mode in2
  | .msub => (in0.mul in1).add mode in2.neg
  | .nmsub => (in0.mul in1).neg.add mode in2
  | .nmadd => (in0.mul in1).neg.add mode in2.neg

/-- The rounding mode that the fused units are told. -/
def mode (x : LaneFMAIn) : RoundingMode := .ofBits (x.fn.rm.setWidth 2)

/-- A register is the boxed register whose number `i` is the correctly rounded result. -/
structure Delivers (confprec : Bool) (p : Precision) (i : ℕ) (op : VAU1Op) (x : LaneFMAIn)
    (w : BitVec 66) : Prop where
  boxed : Boxed confprec p w
  wellFormed : WellFormed p i w
  datum : datum p i w = (p.format.round (mode x)
    (exact (mode x) op (datum p i x.in0) (datum p i x.in1) (datum p i x.in2))).datum

/-- The fused unit rounds correctly what it is given. -/
def UnitRounds (u : FusedUnits) (p : Precision) (i : ℕ) (x : LaneFMAIn) : Prop :=
  match p with
  | .double => u.dfma.RoundsAt (fmaOp x) (recD (multiplicand x)) (recD (multiplier x))
      (recD (addend x)) (x.fn.rm.setWidth 2)
  | .single => u.sfma.RoundsAt (fmaOp x) (recS i (multiplicand x)) (recS i (multiplier x))
      (recS i (addend x)) (x.fn.rm.setWidth 2)
  | .half => u.hfma.RoundsAt (fmaOp x) (recH i (multiplicand x)) (recH i (multiplier x))
      (recH i (addend x)) (x.fn.rm.setWidth 2)

/-- A multiplication whose exact product is a negative zero is rounded toward minus infinity. -/
def KeepsSign (p : Precision) (i : ℕ) (op : VAU1Op) (x : LaneFMAIn) : Prop :=
  ¬(op = .mul ∧ (datum p i x.in0).mul (datum p i x.in2) = .finite true 0 ∧ mode x ≠ .min)

/-! ### Taking out and putting in -/

variable {sigWidth expWidth : ℕ} (n : BitVec 65)

theorem recOfBits_recBits (x : RecFloat sigWidth expWidth) :
    recOfBits (recBits x) = x := by
  cases x with
  | mk sign exp sig =>
    simp only [recOfBits, recBits]
    congr 1
    · rw [BitVec.getLsbD_append, if_neg (by omega), BitVec.getLsbD_append, if_neg (by omega),
        Nat.add_sub_cancel, Nat.sub_self]
      cases sign <;> decide
    · refine BitVec.eq_of_getLsbD_eq fun j hj => ?_
      rw [BitVec.getLsbD_extractLsb', BitVec.getLsbD_append, if_neg (by omega),
        BitVec.getLsbD_append, Nat.add_sub_cancel_left, if_pos hj, decide_eq_true hj,
        Bool.true_and]
    · refine BitVec.eq_of_getLsbD_eq fun j hj => ?_
      rw [BitVec.getLsbD_extractLsb', BitVec.getLsbD_append, Nat.zero_add, if_pos hj,
        decide_eq_true hj, Bool.true_and]

theorem halfOfBits_halfBits (x : FloatN 10 6) : halfOfBits (halfBits x) = x := by
  refine FloatN.ext ?_ (BitVec.eq_of_getLsbD_eq fun j hj => ?_)
    (BitVec.eq_of_getLsbD_eq fun j hj => ?_)
  · show (BitVec.ofBool x.sign ++ x.exp ++ x.fract).getLsbD 15 = x.sign
    rw [BitVec.getLsbD_append, if_neg (by decide), BitVec.getLsbD_append, if_neg (by decide)]
    cases x.sign <;> rfl
  · show ((BitVec.ofBool x.sign ++ x.exp ++ x.fract).extractLsb' 10 5).getLsbD j = _
    simp only [BitVec.getLsbD_extractLsb', BitVec.getLsbD_append]
    grind
  · show ((BitVec.ofBool x.sign ++ x.exp ++ x.fract).extractLsb' 0 10).getLsbD j = _
    simp only [BitVec.getLsbD_extractLsb', BitVec.getLsbD_append]
    grind

theorem unpackFloatD_repackFloatD : unpackFloatD (repackFloatD n) = n := by
  refine BitVec.eq_of_getLsbD_eq fun j hj => ?_
  simp only [unpackFloatD, repackFloatD, BitVec.getLsbD_extractLsb', BitVec.getLsbD_append]
  grind

theorem unpackFloatS_packFloatS (n : BitVec 33) : unpackFloatS (packFloatS n) 0 = n := by
  refine BitVec.eq_of_getLsbD_eq fun j hj => ?_
  simp only [unpackFloatS, packFloatS, BitVec.getLsbD_extractLsb', BitVec.getLsbD_append]
  grind

theorem unpackFloatS_repackFloatS (n : ℕ → BitVec 33) {i : ℕ} (hi : i < 2) :
    unpackFloatS (repackFloatS (n 0) (n 1)) i = n i := by
  refine BitVec.eq_of_getLsbD_eq fun j hj => ?_
  simp only [unpackFloatS, repackFloatS, BitVec.getLsbD_extractLsb', BitVec.getLsbD_append]
  obtain rfl | rfl : i = 0 ∨ i = 1 := by omega
  · grind
  · grind

theorem unpackFloatH_packFloatH (n : BitVec 16) : unpackFloatH (packFloatH n) 0 = n := by
  refine BitVec.eq_of_getLsbD_eq fun j hj => ?_
  simp only [unpackFloatH, packFloatH, BitVec.getLsbD_extractLsb', BitVec.getLsbD_append]
  grind

theorem unpackFloatH_repackFloatH (n : ℕ → BitVec 16) {i : ℕ} (hi : i < 4) :
    unpackFloatH (repackFloatH (n 0) (n 1) (n 2) (n 3)) i = n i := by
  refine BitVec.eq_of_getLsbD_eq fun j hj => ?_
  simp only [unpackFloatH, repackFloatH, BitVec.getLsbD_extractLsb', BitVec.getLsbD_append]
  grind

theorem repackFloatD_box : (repackFloatD n).extractLsb' 65 1 = 1 := by
  refine BitVec.eq_of_getLsbD_eq fun j hj => ?_
  simp only [repackFloatD, BitVec.getLsbD_extractLsb', BitVec.getLsbD_append]
  grind

theorem packFloatS_box (n : BitVec 33) : (packFloatS n).extractLsb' 65 1 = 1 ∧
    (packFloatS n).extractLsb' 32 32 = 0xFFFFFFFF := by
  constructor
  · refine BitVec.eq_of_getLsbD_eq fun j hj => ?_
    simp only [packFloatS, BitVec.getLsbD_extractLsb', BitVec.getLsbD_append]
    grind
  · refine BitVec.eq_of_getLsbD_eq fun j hj => ?_
    simp only [packFloatS, BitVec.getLsbD_extractLsb', BitVec.getLsbD_append]
    grind

theorem packFloatH_box (n : BitVec 16) : (packFloatH n).extractLsb' 64 2 = 0b11 ∧
    (packFloatH n).extractLsb' 16 48 = 0xFFFFFFFFFFFF := by
  have htop : (0b11 : BitVec 2) = (0x3FFFFFFFFFFFF : BitVec 50).extractLsb' 48 2 := by decide
  have hlow : (0xFFFFFFFFFFFF : BitVec 48) = (0x3FFFFFFFFFFFF : BitVec 50).extractLsb' 0 48 := by
    decide
  constructor
  · rw [htop]
    refine BitVec.eq_of_getLsbD_eq fun j hj => ?_
    simp only [packFloatH, BitVec.getLsbD_extractLsb', BitVec.getLsbD_append]
    grind
  · rw [hlow]
    refine BitVec.eq_of_getLsbD_eq fun j hj => ?_
    simp only [packFloatH, BitVec.getLsbD_extractLsb', BitVec.getLsbD_append]
    grind

theorem repackFloatH_box (n0 n1 n2 n3 : BitVec 16) :
    (repackFloatH n0 n1 n2 n3).extractLsb' 64 2 = 0b11 := by
  refine BitVec.eq_of_getLsbD_eq fun j hj => ?_
  simp only [repackFloatH, BitVec.getLsbD_extractLsb', BitVec.getLsbD_append]
  grind

theorem out_append (flags : BitVec 5) (w : BitVec 66) : out (flags ++ w) = w := by
  refine BitVec.eq_of_getLsbD_eq fun j hj => ?_
  simp only [out, BitVec.getLsbD_extractLsb', BitVec.getLsbD_append]
  grind

/-! ### What the units are given -/

/-- `fma_op` of an operation. -/
def opBits : VAU1Op → BitVec 2
  | .sub => 0b01
  | .msub => 0b01
  | .nmsub => 0b10
  | .nmadd => 0b11
  | _ => 0b00

/-- The factor of an operation, out of one and two registers. -/
def factor {α : Type} (op : VAU1Op) (one in1 in2 : α) : α :=
  match op with
  | .add => one
  | .sub => one
  | .mul => in2
  | _ => in1

def summand {α : Type} (op : VAU1Op) (zero in2 : α) : α :=
  match op with
  | .mul => zero
  | _ => in2

/-- What the unit delivers is the rounded result, but for the sign of a zero product. -/
theorem fused_iff {u : MulAddSub sigWidth expWidth} {op : VAU1Op} {rm : BitVec 2}
    {in0 in1 in2 one zero : RecFloat sigWidth expWidth}
    (h : u.RoundsAt (opBits op) in0 (factor op one in1 in2) (summand op zero in2) rm)
    (hone : one.val = .finite false 1) (hzero : zero.val = .finite false 0) :
    (u (opBits op) in0 (factor op one in1 in2) (summand op zero in2) rm).1.val =
      ((recFormat sigWidth expWidth).round (.ofBits rm)
        (exact (.ofBits rm) op in0.val in1.val in2.val)).datum ↔
    ¬(op = .mul ∧ in0.val.mul in2.val = .finite true 0 ∧ RoundingMode.ofBits rm ≠ .min) := by
  cases op with
  | add => exact iff_of_true (h.add rfl hone) (fun hc => nomatch hc.1)
  | sub => exact iff_of_true (h.add rfl hone) (fun hc => nomatch hc.1)
  | mul => exact (h.mul_iff hzero).trans (not_congr (and_iff_right rfl).symm)
  | madd => exact iff_of_true h.val (fun hc => nomatch hc.1)
  | msub => exact iff_of_true h.val (fun hc => nomatch hc.1)
  | nmsub => exact iff_of_true h.val (fun hc => nomatch hc.1)
  | nmadd => exact iff_of_true h.val (fun hc => nomatch hc.1)

section

variable {u : FusedUnits} {x : LaneFMAIn} {op : VAU1Op} {p : Precision}

theorem isOp_eq (hop : x.fn.op = op.code) (op' : VAU1Op) :
    isOp x op' = decide (op.code = op'.code) := by
  rw [isOp, hop]

theorem fmaOp_eq (hop : x.fn.op = op.code) : fmaOp x = opBits op := by
  simp only [fmaOp, isOp_eq hop]
  cases op <;> rfl

/-- The constant one of a precision. -/
def oneOf : Precision → BitVec 66
  | .double => oneDp
  | .single => oneSp
  | .half => oneHp

theorem multiplier_eq (hop : x.fn.op = op.code) (hfp : x.fn.fp = p.code) :
    multiplier x = factor op (oneOf p) x.in1 x.in2 := by
  simp only [multiplier, isOp_eq hop, isFp, hfp]
  cases p <;> cases op <;> rfl

theorem addend_eq (hop : x.fn.op = op.code) : addend x = summand op 0 x.in2 := by
  simp only [addend, isOp_eq hop]
  cases op <;> rfl

variable {α β : Type} (f : α → β) (i : ℕ)

theorem factor_map (one in1 in2 : α) :
    f (factor op one in1 in2) = factor op (f one) (f in1) (f in2) := by
  cases op <;> rfl

theorem summand_map (zero in2 : α) :
    f (summand op zero in2) = summand op (f zero) (f in2) := by
  cases op <;> rfl

/-! ### The constants -/

theorem oneDp_val : (recD oneDp).val = .finite false 1 :=
  RecFloat.val_one (by decide) (by decide) (by decide) (by decide)

theorem oneSp_val {i : ℕ} (hi : i < 2) : (recS i oneSp).val = .finite false 1 := by
  obtain rfl | rfl : i = 0 ∨ i = 1 := by omega
  · exact RecFloat.val_one (by decide) (by decide) (by decide) (by decide)
  · exact RecFloat.val_one (by decide) (by decide) (by decide) (by decide)

theorem oneHp_val {i : ℕ} (hi : i < 4) : (recH i oneHp).val = .finite false 1 := by
  have hbits : unpackFloatH oneHp i = 0x3c00 :=
    unpackFloatH_repackFloatH (fun _ => 0x3c00) hi
  rw [recH, hbits]
  exact RecFloat.val_one (by decide) (by decide) (by decide) (by decide)

theorem zeroD_val : (recD 0).val = .finite false 0 := RecFloat.val_of_isZero (by decide)

theorem zeroS_val : (recS i 0).val = .finite false 0 := by
  have hbits : unpackFloatS 0 i = 0 := by
    show (0#66).extractLsb' (64 + i) 1 ++ (0#66).extractLsb' (32 * i) 32 = 0
    rw [BitVec.extractLsb'_zero, BitVec.extractLsb'_zero]
    rfl
  rw [recS, hbits]
  exact RecFloat.val_of_isZero (by decide)

theorem zeroH_val : (recH i 0).val = .finite false 0 := by
  have hbits : unpackFloatH 0 i = 0 := BitVec.extractLsb'_zero ..
  rw [recH, hbits]
  exact RecFloat.val_of_isZero (by decide)

/-! ### What comes out -/

theorem fill_true {n : ℕ} (b : BitVec n) : fill true b = b := rfl

/-- The half-precision format, for the conversions. -/
def halfConf : FloatConf where
  sigWidth := 10
  expWidth := 6
  sig_pos := by decide
  sig_lt := by decide
  four_le := by decide
  log_le := by decide
  sig_le := by decide

theorem recH_val (w : BitVec 66) :
    (recH i w).val = (halfOfBits (unpackFloatH w i)).val :=
  recoded_val (f := halfConf) _

variable {c : HwachaConfiguration} {i : ℕ}

section

variable (hvalid : x.valid = true)
include hvalid

/-- Which unit is asked: `valDp`, `valSp` or `valHp`. -/
theorem valid_isFp (hfp : x.fn.fp = p.code) (fp : BitVec 2) :
    (x.valid && isFp x fp) = decide (p.code = fp) := by
  rw [isFp, hvalid, hfp, Bool.true_and]

theorem dfma_eq (hfp : x.fn.fp = FPD) : dfma u x =
    u.dfma (fmaOp x) (recD (multiplicand x)) (recD (multiplier x)) (recD (addend x))
      (x.fn.rm.setWidth 2) := by
  have hval : valDp x = true := valid_isFp (p := .double) hvalid hfp FPD
  simp only [dfma, hval, fill_true, recD]

theorem sfma_eq (hfp : x.fn.fp = FPS) : sfma u x i =
    u.sfma (fmaOp x) (recS i (multiplicand x)) (recS i (multiplier x)) (recS i (addend x))
      (x.fn.rm.setWidth 2) := by
  have hval : valSp x = true := valid_isFp (p := .single) hvalid hfp FPS
  simp only [sfma, hval, fill_true, recS]

theorem hfma_eq (hfp : x.fn.fp = FPH) : hfma u x i =
    u.hfma (fmaOp x) (recH i (multiplicand x)) (recH i (multiplier x)) (recH i (addend x))
      (x.fn.rm.setWidth 2) := by
  have hval : valHp x = true := valid_isFp (p := .half) hvalid hfp FPH
  simp only [hfma, hval, fill_true, recodedHp, recOfBits_recBits, recH]

theorem out_double (hfp : x.fn.fp = FPD) :
    out (result c u x) = repackFloatD (recBits (dfma u x).1) := by
  have hval : valDp x = true := valid_isFp (p := .double) hvalid hfp FPD
  rw [result, hval]
  cases c.confprec <;> exact out_append ..

theorem out_single (hfp : x.fn.fp = FPS) :
    out (result c u x) = if c.confprec then
      repackFloatS (recBits (sfma u x 0).1) (recBits (sfma u x 1).1)
    else packFloatS (recBits (sfma u x 0).1) := by
  have hdp : valDp x = false := valid_isFp (p := .single) hvalid hfp FPD
  have hsp : valSp x = true := valid_isFp (p := .single) hvalid hfp FPS
  rw [result, hdp, hsp]
  cases c.confprec <;> exact out_append ..

theorem out_half (hfp : x.fn.fp = FPH) :
    out (result c u x) = if c.confprec then
      repackFloatH (resultHp u x 0) (resultHp u x 1) (resultHp u x 2) (resultHp u x 3)
    else packFloatH (resultHp u x 0) := by
  have hdp : valDp x = false := valid_isFp (p := .half) hvalid hfp FPD
  have hsp : valSp x = false := valid_isFp (p := .half) hvalid hfp FPS
  have hhp : valHp x = true := valid_isFp (p := .half) hvalid hfp FPH
  rw [result, hdp, hsp, hhp]
  cases c.confprec <;> exact out_append ..

/-- What the unit delivers is in the register, and the rest of the register is as it should be. -/
theorem out_slot_single (hfp : x.fn.fp = FPS) (hi : i < Precision.single.slots c.confprec) :
    recS i (out (result c u x)) = (sfma u x i).1 ∧
      Boxed c.confprec .single (out (result c u x)) := by
  rw [out_single hvalid hfp]
  rw [Precision.slots] at hi
  cases hconf : c.confprec with
  | true =>
    rw [hconf, if_pos rfl] at hi
    refine ⟨?_, fun hno => absurd hno.symm Bool.false_ne_true⟩
    rw [if_pos rfl, recS, unpackFloatS_repackFloatS (fun i => recBits (sfma u x i).1) hi,
      recOfBits_recBits]
  | false =>
    rw [hconf, if_neg (by simp), Nat.lt_one_iff] at hi
    rw [if_neg (by simp), hi, recS, unpackFloatS_packFloatS, recOfBits_recBits]
    exact ⟨rfl, fun _ => packFloatS_box _⟩

theorem out_slot_half (hfp : x.fn.fp = FPH) (hi : i < Precision.half.slots c.confprec) :
    unpackFloatH (out (result c u x)) i = resultHp u x i ∧
      Boxed c.confprec .half (out (result c u x)) := by
  rw [out_half hvalid hfp]
  rw [Precision.slots] at hi
  cases hconf : c.confprec with
  | true =>
    rw [hconf, if_pos rfl] at hi
    rw [if_pos rfl]
    refine ⟨unpackFloatH_repackFloatH (resultHp u x) hi, repackFloatH_box .., ?_⟩
    exact fun hno => absurd hno.symm Bool.false_ne_true
  | false =>
    rw [hconf, if_neg (by simp), Nat.lt_one_iff] at hi
    rw [if_neg (by simp), hi, unpackFloatH_packFloatH]
    exact ⟨rfl, (packFloatH_box _).1, fun _ => (packFloatH_box _).2⟩

/-! ### The result -/

theorem delivers_double (hop : x.fn.op = op.code) (hfp : x.fn.fp = FPD)
    (hunit : UnitRounds u .double i x) :
    Delivers c.confprec .double i op x (out (result c u x)) ↔ KeepsSign .double i op x := by
  have hrec : recD (out (result c u x)) = (dfma u x).1 := by
    rw [out_double hvalid hfp, recD, unpackFloatD_repackFloatD, recOfBits_recBits]
  have hbox : Boxed c.confprec .double (out (result c u x)) := by
    rw [out_double hvalid hfp]
    exact repackFloatD_box _
  rw [UnitRounds] at hunit
  rw [dfma_eq hvalid hfp] at hrec
  rw [fmaOp_eq hop, multiplier_eq (p := .double) hop hfp, addend_eq hop, factor_map recD,
    summand_map recD] at hunit hrec
  have hfused := fused_iff hunit oneDp_val zeroD_val
  rw [← hrec] at hfused
  have hwf : (recD (out (result c u x))).WellFormed := hrec ▸ hunit.wellFormed
  exact ⟨fun h => hfused.mp h.datum, fun h => ⟨hbox, hwf, hfused.mpr h⟩⟩

theorem delivers_single (hop : x.fn.op = op.code) (hfp : x.fn.fp = FPS)
    (hi : i < Precision.single.slots c.confprec) (hunit : UnitRounds u .single i x) :
    Delivers c.confprec .single i op x (out (result c u x)) ↔ KeepsSign .single i op x := by
  obtain ⟨hrec, hbox⟩ := out_slot_single (u := u) hvalid hfp hi
  have hi2 : i < 2 := by
    refine hi.trans_le ?_
    cases c.confprec <;> decide
  rw [UnitRounds] at hunit
  rw [sfma_eq hvalid hfp] at hrec
  rw [fmaOp_eq hop, multiplier_eq (p := .single) hop hfp, addend_eq hop, factor_map (recS i),
    summand_map (recS i)] at hunit hrec
  have hfused := fused_iff hunit (oneSp_val hi2) (zeroS_val i)
  rw [← hrec] at hfused
  have hwf : (recS i (out (result c u x))).WellFormed := hrec ▸ hunit.wellFormed
  exact ⟨fun h => hfused.mp h.datum, fun h => ⟨hbox, hwf, hfused.mpr h⟩⟩

theorem delivers_half (hop : x.fn.op = op.code) (hfp : x.fn.fp = FPH)
    (hi : i < Precision.half.slots c.confprec) (hunit : UnitRounds u .half i x) :
    Delivers c.confprec .half i op x (out (result c u x)) ↔ KeepsSign .half i op x := by
  obtain ⟨hbits, hbox⟩ := out_slot_half (u := u) hvalid hfp hi
  have hi4 : i < 4 := by
    refine hi.trans_le ?_
    cases c.confprec <;> decide
  have hrec := hfma_eq (u := u) (i := i) hvalid hfp
  rw [UnitRounds] at hunit
  rw [fmaOp_eq hop, multiplier_eq (p := .half) hop hfp, addend_eq hop, factor_map (recH i),
    summand_map (recH i)] at hunit hrec
  have hfused := fused_iff hunit (oneHp_val hi4) (zeroH_val i)
  have hval : datum .half i (out (result c u x)) = (hfma u x i).1.val := by
    rw [datum, hbits, resultHp, halfOfBits_halfBits, hrec]
    exact recodedFloatNToFloatN_val (f := halfConf) hunit.wellFormed
  rw [← hrec, ← hval, recH_val, recH_val, recH_val] at hfused
  exact ⟨fun h => hfused.mp h.datum, fun h => ⟨hbox, trivial, hfused.mpr h⟩⟩

end

end

/-- **Which results are correctly rounded.** In every run of the shift register, what comes out for
an operation is the boxed register with the correctly rounded result exactly if the operation is not
a multiplication whose exact product is a negative zero, or rounds toward minus infinity. -/
theorem rounds_iff {c : HwachaConfiguration} {u : FusedUnits} {st : ℕ → ℕ → BitVec 71}
    {x : ℕ → LaneFMAIn} (hrun : ∀ t, st (t + 1) = next c u (x t) (st t)) {t : ℕ}
    (hvalid : (x t).valid = true) {op : VAU1Op} (hop : (x t).fn.op = op.code) {p : Precision}
    (hfp : (x t).fn.fp = p.code) {i : ℕ} (hi : i < p.slots c.confprec)
    (hunit : UnitRounds u p i (x t)) (k : ℕ) :
    Delivers c.confprec p i op (x t) (out (st (t + 1 + k) k)) ↔ KeepsSign p i op (x t) := by
  have hshift : ∀ t, st (t + 1) =
      ShiftRegister.next (x t).valid (result c u (x t)) (st t) := hrun
  have hout : st (t + 1 + k) k = result c u (x t) := ShiftRegister.delivers hshift hvalid k
  rw [hout]
  cases p with
  | double => exact delivers_double hvalid hop hfp hunit
  | single => exact delivers_single hvalid hop hfp hi hunit
  | half => exact delivers_half hvalid hop hfp hi hunit

/-! ### Products with zero -/

/-- One times a zero of either sign, in doubles. -/
def timesZero (neg : Bool) : LaneFMAIn :=
  ⟨true, ⟨⟨FPD, VAU1Op.mul.code⟩, 0⟩, oneDp, 0,
    (1 : BitVec 1) ++ BitVec.ofBool neg ++ (0 : BitVec 64)⟩

/-- Units that deliver a positive zero. -/
def zeroUnits : FusedUnits :=
  ⟨fun _ _ _ _ _ => (⟨false, 0, 0⟩, 0), fun _ _ _ _ _ => (⟨false, 0, 0⟩, 0),
    fun _ _ _ _ _ => (⟨false, 0, 0⟩, 0)⟩

theorem timesZero_product (neg : Bool) : (datum .double 0 (timesZero neg).in0).mul
    (datum .double 0 (timesZero neg).in2) = .finite neg 0 := by
  have hin2 : datum .double 0 (timesZero neg).in2 = .finite neg 0 := by
    cases neg <;> exact RecFloat.val_of_isZero (by decide)
  have hin0 : datum .double 0 (timesZero neg).in0 = .finite false 1 := oneDp_val
  rw [hin0, hin2, FloatDatum.mul, Bool.false_xor, mul_zero]

theorem zeroUnits_rounds (neg : Bool) : UnitRounds zeroUnits .double 0 (timesZero neg) := by
  have hzero : (⟨false, 0, 0⟩ : RecFloat 52 12).isZero = true := by decide
  have hmul : (timesZero neg).fn.op = VAU1Op.mul.code := rfl
  have hop : fmaOp (timesZero neg) = 0 := fmaOp_eq hmul
  have haddend : addend (timesZero neg) = 0 := addend_eq hmul
  have hproduct : (recD (multiplicand (timesZero neg))).val.mul
      (recD (multiplier (timesZero neg))).val = .finite neg 0 := timesZero_product neg
  have hnonneg : (FloatDatum.finite neg 0).Nonneg := le_refl (0 : ℚ)
  have hnan : ¬(⟨false, 0, 0⟩ : RecFloat 52 12).isNaN = true := by decide
  rw [UnitRounds, hop, haddend]
  constructor
  · constructor
    · exact fun hno => absurd (hno.symm.trans hzero) Bool.false_ne_true
    · exact fun hno => absurd hno hnan
  · rw [FloatDatum.mulAdd, hproduct, zeroD_val]
    show (⟨false, 0, 0⟩ : RecFloat 52 12).val =
      (FloatFormat.round _ _ (.add _ (.finite neg 0) (.finite false 0))).datum
    rw [RecFloat.val_of_isZero hzero, FloatDatum.add_zero_eq hnonneg]
    cases neg with
    | false =>
      rw [if_neg fun h => absurd (FloatDatum.finite.inj h.1).1 Bool.false_ne_true,
        FloatFormat.round_zero]
    | true => rw [if_pos ⟨rfl, by decide⟩, FloatFormat.round_zero]

/-- The registers in a run on one operation again and again. -/
def steady (c : HwachaConfiguration) (u : FusedUnits) (x : LaneFMAIn) : ℕ → ℕ → BitVec 71
  | 0 => fun _ => 0
  | t + 1 => next c u x (steady c u x t)

/-- A positive zero is right. -/
theorem rounds_iff_positive : Delivers false .double 0 .mul (timesZero false)
    (out (steady Dispatch.chip zeroUnits (timesZero false) 3 2)) := by
  refine (rounds_iff (c := Dispatch.chip) (x := fun _ => timesZero false) (t := 0) (fun _ => rfl)
    rfl rfl (p := .double) rfl (by decide) (zeroUnits_rounds false) 2).mpr ?_
  rintro ⟨-, hproduct, -⟩
  rw [timesZero_product] at hproduct
  exact absurd (FloatDatum.finite.inj hproduct).1 Bool.false_ne_true

/-- One times a negative zero should be a negative zero. -/
theorem not_rounds : ¬∀ {c : HwachaConfiguration} {u : FusedUnits} {st : ℕ → ℕ → BitVec 71}
    {x : ℕ → LaneFMAIn}, (∀ t, st (t + 1) = next c u (x t) (st t)) → ∀ {t : ℕ},
    (x t).valid = true → ∀ {op : VAU1Op}, (x t).fn.op = op.code → ∀ {p : Precision},
    (x t).fn.fp = p.code → ∀ {i : ℕ}, i < p.slots c.confprec → UnitRounds u p i (x t) →
    ∀ k, Delivers c.confprec p i op (x t) (out (st (t + 1 + k) k)) := by
  intro h
  have hrun : ∀ t, steady Dispatch.chip zeroUnits (timesZero true) (t + 1) =
      next Dispatch.chip zeroUnits (timesZero true)
        (steady Dispatch.chip zeroUnits (timesZero true) t) := fun _ => rfl
  have hmul : (timesZero true).fn.op = VAU1Op.mul.code := rfl
  have hdelivers := h (x := fun _ => timesZero true) hrun (t := 0) rfl hmul (p := .double) rfl
    (by decide) (zeroUnits_rounds true) 0
  have hkeeps := (delivers_double rfl rfl rfl (zeroUnits_rounds true)).mp hdelivers
  exact hkeeps ⟨rfl, timesZero_product true, by decide⟩

end LaneFMA

end Hwacha

end RiscvSoc
