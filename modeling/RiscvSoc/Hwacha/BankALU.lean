import RiscvSoc.Hardfloat.Compare
import RiscvSoc.Hwacha.LaneFMA
import RiscvSoc.Rocket.ALU

/-!
# The ALU of a bank

`BankALU` from `hwacha/src/main/scala/bank-alu.scala` has the adder and the shifter of the scalar
ALU, a comparator of whole registers and one comparator of recoded numbers for each of two
precisions. It has none for halves, and the decoder does not ask for one.

An operation is in the first stage for one cycle, and its result and its mask stay in the second one
while bubbles follow. A mask is computed for every operation, but it gates a write only two cycles
after a conditional move.

## Registers

A vector register has 66 bits, the upper two of them for recoded numbers. The comparator of integers
looks at these, too. In word mode a result is the lower word, extended by its sign to 64 bits, which
leaves little of a recoded number.
-/

namespace RiscvSoc

namespace Hwacha

open Compaction Issue
open LaneFMA (Precision datum recD recS Boxed)

structure BankALUIn where
  valid : Bool
  wen : Bool
  fn : VIUFn
  utidx : BitVec 12
  in0 : BitVec 66
  in1 : BitVec 66

/-- What the first stage holds: `s1_fn`, `s1_utidx`, `s1_in0` and `s1_in1`. -/
structure BankALUOp where
  fn : VIUFn
  utidx : BitVec 12
  in0 : BitVec 66
  in1 : BitVec 66

structure BankALU where
  s1Valid : Bool
  s1 : BankALUOp
  s2MaskEn : Bool
  s2Mask : Bool
  s2Result : BitVec 66

namespace BankALU

/-! ### The first stage -/

section

variable (x : BankALUOp)

/-- `OP`, for one operation. -/
def isOp (op : VIUOp) : Bool := decide (x.fn.op = op.code)

/-- `FP`. -/
def isFp (fp : BitVec 2) : Bool := decide (x.fn.fp = fp)

/-- `DW`. -/
def isDw (dw : BitVec 1) : Bool := decide (x.fn.dw = dw)

def sub : Bool := if isOp x .add then false else if isOp x .sub then true else false

def adderOut : BitVec 64 :=
  ((x.in0.extractLsb' 0 64 ++ BitVec.ofBool (sub x)) +
    ((x.in1.extractLsb' 0 64 ^^^ BitVec.fill 64 (sub x)) ++ BitVec.ofBool (sub x))).extractLsb' 1 64

def sra : Bool := isOp x .sra

def shamt : BitVec 6 :=
  BitVec.ofBool (x.in1.getLsbD 5 && isDw x DW64) ++ x.in1.extractLsb' 0 5

def shright : Bool := sra x || isOp x .srl

def shinHi32 : BitVec 32 := if sra x then BitVec.fill 32 (x.in0.getLsbD 31) else 0

def shinHi : BitVec 32 := if isDw x DW64 then x.in0.extractLsb' 32 32 else shinHi32 x

def shinR : BitVec 64 := shinHi x ++ x.in0.extractLsb' 0 32

def shin : BitVec 64 := if shright x then shinR x else (shinR x).reverse

def shoutR : BitVec 64 :=
  ((BitVec.ofBool (sra x && (shinR x).getLsbD 63) ++ shin x).sshiftRight
    (shamt x).toNat).extractLsb' 0 64

def shiftOut : BitVec 64 := if isOp x .sll then (shoutR x).reverse else shoutR x

def ltu : Bool := x.in0.ult x.in1

def lt : Bool :=
  x.in0.getLsbD 63 == x.in1.getLsbD 63 && ltu x || x.in0.getLsbD 63 && !x.in1.getLsbD 63

/-- `comp_sp.io`, where the exponent is cut off one bit too late. -/
def compSp : CompareOut :=
  recodedFloatCompare 24 8 (unpackFloatS x.in0 0) (unpackFloatS x.in1 0)

/-- `comp_dp.io`. -/
def compDp : CompareOut := recodedFloatCompare 53 11 (unpackFloatD x.in0) (unpackFloatD x.in1)

def comp : Bool :=
  isOp x .slt && lt x || isOp x .sltu && ltu x ||
  isOp x .feq && (isFp x FPS && (compSp x).aEqB || isFp x FPD && (compDp x).aEqB) ||
  isOp x .fle && (isFp x FPS && ((compSp x).aEqB || (compSp x).aLtB) ||
    isFp x FPD && ((compDp x).aEqB || (compDp x).aLtB)) ||
  isOp x .flt && (isFp x FPS && (compSp x).aLtB || isFp x FPD && (compDp x).aLtB)

def sjSp : Bool :=
  isOp x .fsj && (unpackFloatS x.in1 0).getLsbD 32 ||
  isOp x .fsjn && !(unpackFloatS x.in1 0).getLsbD 32 ||
  isOp x .fsjx && ((unpackFloatS x.in1 0).getLsbD 32 ^^ (unpackFloatS x.in0 0).getLsbD 32)

def sjDp : Bool :=
  isOp x .fsj && (unpackFloatD x.in1).getLsbD 64 ||
  isOp x .fsjn && !(unpackFloatD x.in1).getLsbD 64 ||
  isOp x .fsjx && ((unpackFloatD x.in1).getLsbD 64 ^^ (unpackFloatD x.in0).getLsbD 64)

/-- `is_in0_nan` and `is_in1_nan`. -/
def isNan (n : BitVec 66) : Bool :=
  isFp x FPS && (unpackFloatS n 0).extractLsb' 29 3 == 0b111 ||
  isFp x FPD && (unpackFloatD n).extractLsb' 61 3 == 0b111

def wantMin : Bool := if isOp x .fmin then true else if isOp x .fmax then false else false

def lessFp : Bool := isFp x FPS && (compSp x).aLtB || isFp x FPD && (compDp x).aLtB

def fminmax : BitVec 66 :=
  if isNan x x.in1 || !isNan x x.in0 && wantMin x == lessFp x then x.in0 else x.in1

def nextMask : Bool :=
  if isOp x .movz then !x.in0.getLsbD 0 else if isOp x .movn then x.in0.getLsbD 0 else true

def nextResult64 : BitVec 66 :=
  if isOp x .idx then x.utidx.setWidth 66
  else if isOp x .mov1 then x.in0
  else if isOp x .mov2 || isOp x .movz || isOp x .movn then x.in1
  else if isOp x .add || isOp x .sub then (adderOut x).setWidth 66
  else if isOp x .sll || isOp x .srl || isOp x .sra then (shiftOut x).setWidth 66
  else if isOp x .slt || isOp x .sltu || isOp x .feq || isOp x .fle || isOp x .flt then
    (BitVec.ofBool (comp x)).setWidth 66
  else if isOp x .and then x.in0 &&& x.in1
  else if isOp x .or then x.in0 ||| x.in1
  else if isOp x .xor then x.in0 ^^^ x.in1
  else if (isOp x .fsj || isOp x .fsjn || isOp x .fsjx) && isFp x FPS then
    packFloatS (BitVec.ofBool (sjSp x) ++ (unpackFloatS x.in0 0).extractLsb' 0 32)
  else if (isOp x .fsj || isOp x .fsjn || isOp x .fsjx) && isFp x FPD then
    packFloatD (BitVec.ofBool (sjDp x) ++ (unpackFloatD x.in0).extractLsb' 0 64)
  else if isOp x .fmin || isOp x .fmax then fminmax x
  else 0

def nextResult : BitVec 66 :=
  if isDw x DW64 then nextResult64 x
  else if isDw x DW32 then
    ((0 : BitVec 1) ++ BitVec.fill 32 ((nextResult64 x).getLsbD 31) ++
      (nextResult64 x).extractLsb' 0 32).setWidth 66
  else 0

end

/-! ### The registers -/

def next (i : BankALUIn) (s : BankALU) : BankALU where
  s1Valid := i.valid
  s1 := if i.valid then ⟨i.fn, i.utidx, i.in0, i.in1⟩ else s.s1
  s2MaskEn := s.s1Valid && (isOp s.s1 .movz || isOp s.s1 .movn)
  s2Mask := if s.s1Valid then nextMask s.s1 else s.s2Mask
  s2Result := if s.s1Valid then nextResult s.s1 else s.s2Result

/-- `io.wen_masked`. -/
def wenMasked (i : BankALUIn) (s : BankALU) : Bool := i.wen && (!s.s2MaskEn || s.s2Mask)

/-- `io.out`. -/
def out (s : BankALU) : BitVec 66 := s.s2Result

end BankALU

/-! ### What an operation asks for -/

/-- In word mode a register keeps its lower word, extended by its sign. -/
def cut (dw : BitVec 1) (w : BitVec 66) : BitVec 66 :=
  if dw = DW64 then w else ((w.setWidth 32).signExtend 64).setWidth 66

/-- The sign of the first number in a register. -/
def signIn (p : Precision) (w : BitVec 66) : Bool :=
  match p with
  | .double => (recD w).sign
  | .single => (recS 0 w).sign
  | .half => (halfOfBits (unpackFloatH w 0)).sign

/-- The first number of a register is the one of another register with this sign. -/
def SignSet (p : Precision) (sign : Bool) (w v : BitVec 66) : Prop :=
  match p with
  | .double => recD v = { recD w with sign := sign }
  | .single => recS 0 v = { recS 0 w with sign := sign }
  | .half => halfOfBits (unpackFloatH v 0) = { halfOfBits (unpackFloatH w 0) with sign := sign }

/-- Two zeros of the same sign in registers have the same bits, and so have two infinities. -/
def SameCodeIn (p : Precision) (w v : BitVec 66) : Prop :=
  match p with
  | .double => (recD w).sign = (recD v).sign → (recD w).SameCode (recD v)
  | .single => (recS 0 w).sign = (recS 0 v).sign → (recS 0 w).SameCode (recS 0 v)
  | .half => True

/-- The first of two numbers is a NaN only if both are, and the second one is not better. -/
structure Chosen (better : FloatDatum → FloatDatum → Bool) (d e : FloatDatum) : Prop where
  isNaN : d.isNaN = true → e.isNaN = true
  best : better e d = false

namespace BankALUOp

variable (x : BankALUOp)

/-- The lower 64 bits are what the instruction asks for. -/
def Integer (f : AluOp) (w : BitVec 66) : Prop :=
  w.setWidth 64 = f.result (decide (x.fn.dw = DW64)) (x.in0.setWidth 64) (x.in1.setWidth 64) ∧
    (x.in0.extractLsb' 64 2 = 0 → x.in1.extractLsb' 64 2 = 0 → w.extractLsb' 64 2 = 0)

def Compares (rel : FloatDatum → FloatDatum → Bool) (w : BitVec 66) : Prop :=
  ∀ p : Precision, p ≠ .half → x.fn.fp = p.code → SameCodeIn p x.in0 x.in1 →
    w = (BitVec.ofBool (rel (datum p 0 x.in0) (datum p 0 x.in1))).setWidth 66

/-- The sign is found from those of both operands. -/
def Injects (sign : Bool → Bool → Bool) (w : BitVec 66) : Prop :=
  ∀ p : Precision, p ≠ .half → x.fn.fp = p.code → ∃ v, w = cut x.fn.dw v ∧ Boxed false p v ∧
    SignSet p (sign (signIn p x.in0) (signIn p x.in1)) x.in0 v

def Chooses (better : FloatDatum → FloatDatum → Bool) (w : BitVec 66) : Prop :=
  ∀ p : Precision, p ≠ .half → x.fn.fp = p.code →
    w = cut x.fn.dw x.in0 ∧ Chosen better (datum p 0 x.in0) (datum p 0 x.in1) ∨
    w = cut x.fn.dw x.in1 ∧ Chosen better (datum p 0 x.in1) (datum p 0 x.in0)

/-- The result of an operation on its own operands. -/
def Result (op : VIUOp) (w : BitVec 66) : Prop :=
  match op with
  | .add => x.Integer .add w
  | .sub => x.Integer .sub w
  | .sll => x.Integer .sl w
  | .srl => x.Integer .sr w
  | .sra => x.Integer .sra w
  | .and => x.Integer .and w
  | .or => x.Integer .or w
  | .xor => x.Integer .xor w
  | .slt => x.in0.extractLsb' 64 2 = x.in1.extractLsb' 64 2 → x.Integer .slt w
  | .sltu => x.in0.extractLsb' 64 2 = x.in1.extractLsb' 64 2 → x.Integer .sltu w
  | .idx => w = cut x.fn.dw (x.utidx.setWidth 66)
  | .mov1 => w = cut x.fn.dw x.in0
  | .mov2 | .movz | .movn => w = cut x.fn.dw x.in1
  | .feq => x.Compares FloatDatum.equal w
  | .flt => x.Compares FloatDatum.less w
  | .fle => x.Compares (fun d e => d.less e || d.equal e) w
  | .fsj => x.Injects (fun _ s => s) w
  | .fsjn => x.Injects (fun _ s => !s) w
  | .fsjx => x.Injects (fun r s => r ^^ s) w
  | .fmin => x.Chooses FloatDatum.less w
  | .fmax => x.Chooses (fun d e => e.less d) w

/-- The mask of an operation: a conditional move asks the lowest bit of its first operand. -/
def mask (op : VIUOp) : Bool :=
  match op with
  | .movz => !x.in0.getLsbD 0
  | .movn => x.in0.getLsbD 0
  | _ => true

end BankALUOp

namespace BankALU

variable {x : BankALUOp} {op : VIUOp}

/-! ### Operations -/

/-- What the multiplexer of the results selects. -/
def select64 (x : BankALUOp) : VIUOp → BitVec 66
  | .idx => x.utidx.setWidth 66
  | .mov1 => x.in0
  | .mov2 | .movz | .movn => x.in1
  | .add | .sub => (adderOut x).setWidth 66
  | .sll | .srl | .sra => (shiftOut x).setWidth 66
  | .slt | .sltu | .feq | .fle | .flt => (BitVec.ofBool (comp x)).setWidth 66
  | .and => x.in0 &&& x.in1
  | .or => x.in0 ||| x.in1
  | .xor => x.in0 ^^^ x.in1
  | .fsj | .fsjn | .fsjx =>
    if isFp x FPS then
      packFloatS (BitVec.ofBool (sjSp x) ++ (unpackFloatS x.in0 0).extractLsb' 0 32)
    else if isFp x FPD then
      packFloatD (BitVec.ofBool (sjDp x) ++ (unpackFloatD x.in0).extractLsb' 0 64)
    else 0
  | .fmin | .fmax => fminmax x

/-- The comparison that an operation asks for. -/
def selectComp (x : BankALUOp) : VIUOp → Bool
  | .slt => lt x
  | .sltu => ltu x
  | .feq => isFp x FPS && (compSp x).aEqB || isFp x FPD && (compDp x).aEqB
  | .fle => isFp x FPS && ((compSp x).aEqB || (compSp x).aLtB) ||
      isFp x FPD && ((compDp x).aEqB || (compDp x).aLtB)
  | .flt => lessFp x
  | _ => false

section

variable (hop : x.fn.op = op.code)

include hop

theorem isOp_eq (o : VIUOp) : isOp x o = decide (op.code = o.code) := by
  rw [isOp, hop]

theorem nextResult64_eq : nextResult64 x = select64 x op := by
  simp only [nextResult64, isOp_eq hop]
  cases op <;> rfl

theorem comp_eq : comp x = selectComp x op := by
  simp only [comp, isOp_eq hop]
  cases op <;> simp +decide [selectComp, lessFp]

theorem nextMask_eq : nextMask x = x.mask op := by
  simp only [nextMask, isOp_eq hop]
  cases op <;> rfl

end

theorem cut_word (w : BitVec 66) : ((0 : BitVec 1) ++ BitVec.fill 32 (w.getLsbD 31) ++
    w.extractLsb' 0 32).setWidth 66 = ((w.setWidth 32).signExtend 64).setWidth 66 := by
  have hfill : BitVec.fill 32 (w.getLsbD 31) ++ w.extractLsb' 0 32 =
      (w.setWidth 32).signExtend 64 := by
    have h := fill_append (k := 32) (w.setWidth 32) true
    rwa [BitVec.getLsbD_setWidth] at h
  rw [← hfill]
  refine BitVec.eq_of_getLsbD_eq fun j hj => ?_
  simp only [BitVec.getLsbD_setWidth, BitVec.getLsbD_append]
  grind

theorem dw_eq (dw : BitVec 1) : dw = DW64 ∨ dw = DW32 := by
  revert dw
  decide

theorem nextResult_eq : nextResult x = cut x.fn.dw (nextResult64 x) := by
  rw [nextResult, cut, isDw, isDw, cut_word]
  rcases dw_eq x.fn.dw with hdw | hdw
  · rw [hdw]
    rfl
  · rw [hdw]
    rfl

/-! ### Integers -/

/-- The operation that the scalar ALU would be asked for. -/
def scalar (x : BankALUOp) (f : AluOp) : ALU :=
  ⟨decide (x.fn.dw = DW64), f.fn, x.in1.setWidth 64, x.in0.setWidth 64⟩

/-- The function of the scalar ALU. -/
def aluOp : VIUOp → Option AluOp
  | .add => some .add
  | .sub => some .sub
  | .sll => some .sl
  | .srl => some .sr
  | .sra => some .sra
  | .and => some .and
  | .or => some .or
  | .xor => some .xor
  | .slt => some .slt
  | .sltu => some .sltu
  | _ => none

theorem adderOut_eq : adderOut x =
    if sub x then x.in0.setWidth 64 - x.in1.setWidth 64
    else x.in0.setWidth 64 + x.in1.setWidth 64 := by
  rw [BitVec.setWidth_eq_extractLsb' (by decide), BitVec.setWidth_eq_extractLsb' (by decide)]
  exact add_carry ..

section

variable {f : AluOp}

theorem shamt_eq : shamt x = ALU.shamt (scalar x f) := by
  rw [shamt, ALU.shamt, scalar, BitVec.getLsbD_setWidth,
    BitVec.extractLsb'_setWidth_of_le (by decide)]
  rfl

theorem shinR_eq (hsra : ALU.isSub f.fn = sra x) : shinR x = ALU.shinR (scalar x f) := by
  rw [shinR, ALU.shinR, shinHi, ALU.shinHi, shinHi32, ALU.shinHi32, scalar, hsra,
    BitVec.getLsbD_setWidth, BitVec.extractLsb'_setWidth_of_le (by decide),
    BitVec.extractLsb'_setWidth_of_le (by decide)]
  rfl

theorem shoutR_eq (hsra : ALU.isSub f.fn = sra x)
    (hright : shright x = decide (f.fn = ALU.FN_SR ∨ f.fn = ALU.FN_SRA)) :
    shoutR x = ALU.shoutR (scalar x f) := by
  have hshin : shin x = ALU.shin (scalar x f) := by
    rw [shin, ALU.shin, shinR_eq hsra, hright]
    exact if_congr decide_eq_true_iff rfl rfl
  have hsign : (sra x && (shinR x).getLsbD 63) =
      (ALU.isSub f.fn && (ALU.shin (scalar x f)).getLsbD 63) := by
    rw [hsra, ← hshin]
    cases h : sra x with
    | false => rfl
    | true => rw [shin, shright, h, Bool.true_or, if_pos rfl]
  rw [shoutR, ALU.shoutR, hsign, hshin, shamt_eq, BitVec.setWidth_eq_extractLsb' (by decide)]
  rfl

end

theorem lt_eq (h : x.in0.extractLsb' 64 2 = x.in1.extractLsb' 64 2) :
    lt x = (x.in0.setWidth 64).slt (x.in1.setWidth 64) := by
  have hmsb (w : BitVec 66) : (w.setWidth 64).msb = w.getLsbD 63 := by
    rw [BitVec.msb_eq_getLsbD_last, BitVec.getLsbD_setWidth]
    rfl
  rw [← slt_of_ult, ← ult_of_upper (k := 2) (n := 64) h, hmsb, hmsb]
  rfl

section

variable {f : AluOp} (hop : x.fn.op = op.code) (hf : aluOp op = some f)

include hop hf

theorem shiftOut_eq (hshift : op = .sll ∨ op = .srl ∨ op = .sra) :
    shiftOut x = ALU.out64 (scalar x f) := by
  have hsra : ALU.isSub f.fn = sra x := by
    rw [sra, isOp_eq hop]
    rcases hshift with rfl | rfl | rfl <;> cases hf <;> rfl
  have hright : shright x = decide (f.fn = ALU.FN_SR ∨ f.fn = ALU.FN_SRA) := by
    rw [shright, sra, isOp_eq hop, isOp_eq hop]
    rcases hshift with rfl | rfl | rfl <;> cases hf <;> rfl
  rw [shiftOut, shoutR_eq hsra hright, isOp_eq hop]
  rcases hshift with rfl | rfl | rfl <;> cases hf <;> rfl

theorem adderOut_eq_out64 (hadd : op = .add ∨ op = .sub) : adderOut x = ALU.out64 (scalar x f) := by
  have hsum : ALU.out64 (scalar x f) = ALU.sum (scalar x f) := by
    rcases hadd with rfl | rfl <;> cases hf <;> rfl
  have hsub : sub x = ALU.isSub f.fn := by
    rw [sub, isOp_eq hop, isOp_eq hop]
    rcases hadd with rfl | rfl <;> cases hf <;> rfl
  rw [hsum, adderOut_eq, scalar, ALU.sum_eq, hsub]

theorem setWidth_nextResult64
    (hupper : op = .slt ∨ op = .sltu → x.in0.extractLsb' 64 2 = x.in1.extractLsb' 64 2) :
    (nextResult64 x).setWidth 64 = ALU.out64 (scalar x f) := by
  have hlow (w : BitVec 64) : (w.setWidth 66).setWidth 64 = w := by
    rw [BitVec.setWidth_setWidth_of_le w (by decide), BitVec.setWidth_eq]
  have hbit (b : Bool) : ((BitVec.ofBool b).setWidth 66).setWidth 64 = if b then 1 else 0 := by
    cases b <;> rfl
  rw [nextResult64_eq hop]
  cases op with
  | add => exact (hlow _).trans (adderOut_eq_out64 hop hf (.inl rfl))
  | sub => exact (hlow _).trans (adderOut_eq_out64 hop hf (.inr rfl))
  | sll => exact (hlow _).trans (shiftOut_eq hop hf (.inl rfl))
  | srl => exact (hlow _).trans (shiftOut_eq hop hf (.inr (.inl rfl)))
  | sra => exact (hlow _).trans (shiftOut_eq hop hf (.inr (.inr rfl)))
  | and =>
    cases hf
    exact BitVec.setWidth_and
  | or =>
    cases hf
    exact BitVec.setWidth_or
  | xor =>
    cases hf
    exact BitVec.setWidth_xor
  | slt =>
    cases hf
    refine (hbit _).trans ?_
    rw [comp_eq hop, selectComp, lt_eq (hupper (.inl rfl))]
    exact (ALU.out64_of_test rfl).symm
  | sltu =>
    cases hf
    refine (hbit _).trans ?_
    rw [comp_eq hop, selectComp, ltu, ult_of_upper (k := 2) (n := 64) (hupper (.inr rfl))]
    exact (ALU.out64_of_test rfl).symm
  | _ => cases hf

end

/-! ### Recoded numbers -/

/-- Where the exponent is cut off from the fraction is left to the reader of a number. -/
theorem reads_recOfBits {s e sigWidth expWidth : ℕ} {a : BitVec (s + e + 1)}
    {b : BitVec (1 + expWidth + sigWidth)} (hw : s + e = sigWidth + expWidth)
    (hab : a.toNat = b.toNat) (hE : 3 ≤ expWidth) :
    Reads a (recOfBits b : RecFloat sigWidth expWidth) where
  sign := by
    rw [signOf, recOfBits, ← BitVec.testBit_toNat, ← BitVec.testBit_toNat, hab, hw,
      Nat.add_comm sigWidth]
  bits := by
    rw [expOf, sigOf, RecFloat.bits, recOfBits]
    simp only [BitVec.extractLsb'_toNat, Nat.shiftRight_eq_div_pow, pow_zero, Nat.div_one]
    rw [cat_slices, cat_slices, hab, hw]
  code := by
    have hpow : 2 ^ expWidth = 2 ^ (expWidth - 3) * 2 ^ 3 := by
      rw [← pow_add, Nat.sub_add_cancel hE]
    rw [codeOf, RecFloat.expCode_eq hE, recOfBits, BitVec.extractLsb'_toNat,
      BitVec.extractLsb'_toNat, Nat.shiftRight_eq_div_pow, Nat.shiftRight_eq_div_pow, hpow,
      Nat.mod_mul_right_div_self, Nat.div_div_eq_div_mul, ← pow_add, hab, hw,
      Nat.add_sub_assoc hE]

variable (w : BitVec 66) (sign : Bool)

theorem reads_single :
    Reads (s := 24) (e := 8) (unpackFloatS w 0) (recS 0 w) :=
  reads_recOfBits rfl rfl (by decide)

theorem reads_double : Reads (s := 53) (e := 11) (unpackFloatD w) (recD w) :=
  reads_recOfBits rfl rfl (by decide)

theorem select_single (h : x.fn.fp = FPS) (single double : Bool) :
    (isFp x FPS && single || isFp x FPD && double) = single := by
  rw [isFp, isFp, h]
  exact Bool.or_false _

theorem select_double (h : x.fn.fp = FPD) (single double : Bool) :
    (isFp x FPS && single || isFp x FPD && double) = double := by
  rw [isFp, isFp, h]
  rfl

theorem recOfBits_setSign {sigWidth expWidth : ℕ} {b c : BitVec (1 + expWidth + sigWidth)}
    (hlow : ∀ j < expWidth + sigWidth, b.getLsbD j = c.getLsbD j) :
    (recOfBits b : RecFloat sigWidth expWidth) =
      { (recOfBits c : RecFloat sigWidth expWidth) with
        sign := b.getLsbD (expWidth + sigWidth) } := by
  have hexp : b.extractLsb' sigWidth expWidth = c.extractLsb' sigWidth expWidth := by
    refine BitVec.eq_of_getLsbD_eq fun j hj => ?_
    rw [BitVec.getLsbD_extractLsb', BitVec.getLsbD_extractLsb', hlow _ (by omega)]
  have hsig : b.extractLsb' 0 sigWidth = c.extractLsb' 0 sigWidth := by
    refine BitVec.eq_of_getLsbD_eq fun j hj => ?_
    rw [BitVec.getLsbD_extractLsb', BitVec.getLsbD_extractLsb', hlow _ (by omega)]
  rw [recOfBits, recOfBits, hexp, hsig]

theorem getLsbD_ofBool_append {n : ℕ} (w : BitVec (n + 1)) :
    (BitVec.ofBool sign ++ w.extractLsb' 0 n).getLsbD n = sign ∧
      ∀ j < n, (BitVec.ofBool sign ++ w.extractLsb' 0 n).getLsbD j = w.getLsbD j := by
  constructor
  · rw [BitVec.getLsbD_append, if_neg (lt_irrefl n), Nat.sub_self]
    cases sign <;> rfl
  · intro j hj
    rw [BitVec.getLsbD_append, if_pos hj, BitVec.getLsbD_extractLsb', decide_eq_true hj,
      Bool.true_and, Nat.zero_add]

theorem recS_packFloatS (w : BitVec 66) :
    recS 0 (packFloatS (BitVec.ofBool sign ++ (unpackFloatS w 0).extractLsb' 0 32)) =
      { recS 0 w with sign := sign } := by
  have hbits := getLsbD_ofBool_append (n := 32) sign (unpackFloatS w 0)
  rw [recS, LaneFMA.unpackFloatS_packFloatS, @recOfBits_setSign 23 9 _ _ hbits.2]
  exact congrArg (fun b => { recS 0 w with sign := b }) hbits.1

theorem packFloatD_box (n : BitVec 65) : (packFloatD n).extractLsb' 65 1 = 1 :=
  BitVec.extractLsb'_append_eq_left

theorem recD_packFloatD (w : BitVec 66) :
    recD (packFloatD (BitVec.ofBool sign ++ (unpackFloatD w).extractLsb' 0 64)) =
      { recD w with sign := sign } := by
  have hbits := getLsbD_ofBool_append (n := 64) sign (unpackFloatD w)
  rw [recD, packFloatD, ← repackFloatD, LaneFMA.unpackFloatD_repackFloatD,
    @recOfBits_setSign 52 12 _ _ hbits.2]
  exact congrArg (fun b => { recD w with sign := b }) hbits.1

section

variable {p : Precision} (hp : p ≠ .half) (hfp : x.fn.fp = p.code)

include hp hfp

theorem isNan_eq (w : BitVec 66) : isNan x w = (datum p 0 w).isNaN := by
  cases p with
  | double =>
    rw [datum, RecFloat.isNaN_val, ← (reads_double w).isNaN_eq]
    exact select_double hfp _ _
  | single =>
    rw [datum, RecFloat.isNaN_val, ← (reads_single w).isNaN_eq]
    exact select_single hfp _ _
  | half => exact absurd rfl hp

theorem lessFp_eq (hsame : SameCodeIn p x.in0 x.in1) :
    lessFp x = (datum p 0 x.in0).less (datum p 0 x.in1) := by
  cases p with
  | double =>
    exact (select_double hfp _ _).trans
      (recodedFloatCompare_less (reads_double _) (reads_double _) (by decide) hsame)
  | single =>
    exact (select_single hfp _ _).trans
      (recodedFloatCompare_less (reads_single _) (reads_single _) (by decide) hsame)
  | half => exact absurd rfl hp

theorem equalFp_eq (hsame : SameCodeIn p x.in0 x.in1) :
    (isFp x FPS && (compSp x).aEqB || isFp x FPD && (compDp x).aEqB) =
      (datum p 0 x.in0).equal (datum p 0 x.in1) := by
  cases p with
  | double =>
    exact (select_double hfp _ _).trans
      (recodedFloatCompare_equal (reads_double _) (reads_double _) (by decide) hsame)
  | single =>
    exact (select_single hfp _ _).trans
      (recodedFloatCompare_equal (reads_single _) (reads_single _) (by decide) hsame)
  | half => exact absurd rfl hp

/-- Numbers that the comparator does not take for what they are are equal. -/
theorem lessFp_sound :
    (lessFp x = true → (datum p 0 x.in1).less (datum p 0 x.in0) = false) ∧
      (lessFp x = false → (datum p 0 x.in0).less (datum p 0 x.in1) = false) := by
  by_cases hsame : SameCodeIn p x.in0 x.in1
  · rw [lessFp_eq hp hfp hsame]
    exact ⟨FloatDatum.less_asymm, id⟩
  · have h : (datum p 0 x.in0).less (datum p 0 x.in1) = false ∧
        (datum p 0 x.in1).less (datum p 0 x.in0) = false := by
      cases p with
      | double => exact RecFloat.less_of_not_sameCode hsame
      | single => exact RecFloat.less_of_not_sameCode hsame
      | half => exact absurd rfl hp
    exact ⟨fun _ => h.2, fun _ => h.1⟩

end

/-! ### Results -/

theorem setWidth_cut (dw : BitVec 1) (w : BitVec 66) : (cut dw w).setWidth 64 =
    if dw = DW64 then w.setWidth 64 else ((w.setWidth 64).setWidth 32).signExtend 64 := by
  have hword (v : BitVec 64) : (v.setWidth 66).setWidth 64 = v := by
    rw [BitVec.setWidth_setWidth_of_le v (by decide), BitVec.setWidth_eq]
  rw [cut]
  split
  · rfl
  · rw [hword, BitVec.setWidth_setWidth_of_le w (by decide)]

theorem cut_bit (dw : BitVec 1) (b : Bool) :
    cut dw ((BitVec.ofBool b).setWidth 66) = (BitVec.ofBool b).setWidth 66 := by
  revert dw b
  decide

theorem upper_setWidth {n : ℕ} (v : BitVec n) (hn : n ≤ 64) :
    (v.setWidth 66).extractLsb' 64 2 = 0 := by
  refine BitVec.eq_of_getLsbD_eq fun j hj => ?_
  rw [BitVec.getLsbD_extractLsb', BitVec.getLsbD_setWidth, BitVec.getLsbD_of_ge v _ (by omega)]
  simp

section

variable (hop : x.fn.op = op.code)

include hop

theorem nextResult_of_op : nextResult x = cut x.fn.dw (select64 x op) := by
  rw [nextResult_eq, nextResult64_eq hop]

theorem integer {f : AluOp} (hf : aluOp op = some f)
    (hupper : op = .slt ∨ op = .sltu → x.in0.extractLsb' 64 2 = x.in1.extractLsb' 64 2) :
    x.Integer f (nextResult x) := by
  rw [nextResult_eq]
  constructor
  · rw [setWidth_cut, setWidth_nextResult64 hop hf hupper,
      ← ALU.out_eq f (decide (x.fn.dw = DW64)) (x.in0.setWidth 64) (x.in1.setWidth 64),
      ALU.out_of_out64]
    exact if_congr decide_eq_true_iff.symm rfl rfl
  · intro h0 h1
    rw [cut]
    split
    · rw [nextResult64_eq hop]
      cases op with
      | add | sub => exact upper_setWidth _ (le_refl 64)
      | sll | srl | sra => exact upper_setWidth _ (le_refl 64)
      | slt | sltu => exact upper_setWidth _ (by decide)
      | and =>
        show (x.in0 &&& x.in1).extractLsb' 64 2 = 0
        rw [BitVec.extractLsb'_and, h0]
        exact BitVec.zero_and
      | or =>
        show (x.in0 ||| x.in1).extractLsb' 64 2 = 0
        rw [BitVec.extractLsb'_or, h0, h1]
        rfl
      | xor =>
        show (x.in0 ^^^ x.in1).extractLsb' 64 2 = 0
        rw [BitVec.extractLsb'_xor, h0, h1]
        rfl
      | _ => cases hf
    · exact upper_setWidth _ (le_refl 64)

theorem compares_feq (hfeq : op = .feq) : x.Compares FloatDatum.equal (nextResult x) := by
  subst hfeq
  intro p hp hfp hsame
  rw [nextResult_of_op hop, ← equalFp_eq hp hfp hsame]
  exact (cut_bit _ _).trans (by rw [comp_eq hop]; rfl)

theorem compares_flt (hflt : op = .flt) : x.Compares FloatDatum.less (nextResult x) := by
  subst hflt
  intro p hp hfp hsame
  rw [nextResult_of_op hop, ← lessFp_eq hp hfp hsame]
  exact (cut_bit _ _).trans (by rw [comp_eq hop]; rfl)

theorem compares_fle (hfle : op = .fle) :
    x.Compares (fun d e => d.less e || d.equal e) (nextResult x) := by
  subst hfle
  intro p hp hfp hsame
  have hcomp : comp x = (lessFp x ||
      (isFp x FPS && (compSp x).aEqB || isFp x FPD && (compDp x).aEqB)) := by
    rw [comp_eq hop, selectComp, lessFp, Bool.and_or_distrib_left, Bool.and_or_distrib_left]
    ac_rfl
  dsimp only
  rw [nextResult_of_op hop, ← lessFp_eq hp hfp hsame, ← equalFp_eq hp hfp hsame,
    ← hcomp]
  exact cut_bit _ _

theorem chooses {better : FloatDatum → FloatDatum → Bool} (hmm : op = .fmin ∨ op = .fmax)
    (hnan : ∀ d e : FloatDatum, d.isNaN = true ∨ e.isNaN = true → better d e = false)
    (h0 : ∀ p : Precision, p ≠ .half → x.fn.fp = p.code → wantMin x = lessFp x →
      better (datum p 0 x.in1) (datum p 0 x.in0) = false)
    (h1 : ∀ p : Precision, p ≠ .half → x.fn.fp = p.code → wantMin x ≠ lessFp x →
      better (datum p 0 x.in0) (datum p 0 x.in1) = false) : x.Chooses better (nextResult x) := by
  intro p hp hfp
  have hresult : nextResult x = cut x.fn.dw (fminmax x) := by
    rw [nextResult_of_op hop]
    rcases hmm with rfl | rfl <;> rfl
  rw [hresult, fminmax, isNan_eq hp hfp, isNan_eq hp hfp]
  cases hn1 : (datum p 0 x.in1).isNaN with
  | true => exact .inl ⟨rfl, fun _ => hn1, hnan _ _ (.inl hn1)⟩
  | false =>
    cases hn0 : (datum p 0 x.in0).isNaN with
    | true => exact .inr ⟨rfl, fun _ => hn0, hnan _ _ (.inl hn0)⟩
    | false =>
      by_cases hwant : wantMin x = lessFp x
      · rw [hwant]
        exact .inl ⟨by simp, fun h => absurd h (by simp [hn0]), h0 p hp hfp hwant⟩
      · exact .inr ⟨by simp [hwant], fun h => absurd h (by simp [hn1]), h1 p hp hfp hwant⟩

theorem chooses_fmin (hfmin : op = .fmin) : x.Chooses FloatDatum.less (nextResult x) := by
  have hwant : wantMin x = true := by
    subst hfmin
    rw [wantMin, isOp_eq hop]
    rfl
  refine chooses hop (.inl hfmin) (fun _ _ => FloatDatum.less_of_isNaN) (fun p hp hfp h => ?_)
    fun p hp hfp h => ?_
  · exact (lessFp_sound hp hfp).1 (by rw [← h, hwant])
  · exact (lessFp_sound hp hfp).2 (by rw [hwant] at h; simpa using h.symm)

theorem chooses_fmax (hfmax : op = .fmax) :
    x.Chooses (fun d e => e.less d) (nextResult x) := by
  have hwant : wantMin x = false := by
    subst hfmax
    rw [wantMin, isOp_eq hop, isOp_eq hop]
    rfl
  refine chooses hop (.inr hfmax) (fun _ _ h => FloatDatum.less_of_isNaN h.symm)
    (fun p hp hfp h => ?_) fun p hp hfp h => ?_
  · exact (lessFp_sound hp hfp).2 (by rw [← h, hwant])
  · exact (lessFp_sound hp hfp).1 (by rw [hwant] at h; simpa using h.symm)

variable {sign : Bool → Bool → Bool}

section

variable
  (hsign : op = .fsj ∧ sign = (fun _ s => s) ∨ op = .fsjn ∧ sign = (fun _ s => !s) ∨ op = .fsjx ∧
    sign = fun r s => r ^^ s)
include hsign

theorem sj_eq :
    sjSp x = sign (recS 0 x.in0).sign (recS 0 x.in1).sign ∧
      sjDp x = sign (recD x.in0).sign (recD x.in1).sign := by
  simp only [sjSp, sjDp, isOp_eq hop]
  rcases hsign with ⟨rfl, rfl⟩ | ⟨rfl, rfl⟩ | ⟨rfl, rfl⟩
  · simp +decide [recS, recD, recOfBits]
  · simp +decide [recS, recD, recOfBits]
  · simp +decide [recS, recD, recOfBits, Bool.xor_comm]

theorem injects : x.Injects sign (nextResult x) := by
  have hselect : select64 x op =
      if isFp x FPS then
        packFloatS (BitVec.ofBool (sjSp x) ++ (unpackFloatS x.in0 0).extractLsb' 0 32)
      else if isFp x FPD then
        packFloatD (BitVec.ofBool (sjDp x) ++ (unpackFloatD x.in0).extractLsb' 0 64)
      else 0 := by
    rcases hsign with ⟨rfl, -⟩ | ⟨rfl, -⟩ | ⟨rfl, -⟩ <;> rfl
  intro p hp hfp
  refine ⟨_, nextResult_of_op hop, ?_⟩
  rw [hselect]
  cases p with
  | double =>
    have hsp : isFp x FPS = false := by rw [isFp, hfp]; rfl
    have hdp : isFp x FPD = true := by rw [isFp, hfp]; rfl
    rw [if_neg (by rw [hsp]; exact Bool.false_ne_true), if_pos hdp]
    refine ⟨packFloatD_box _, ?_⟩
    rw [SignSet, recD_packFloatD, (sj_eq hop hsign).2]
    rfl
  | single =>
    have hsp : isFp x FPS = true := by rw [isFp, hfp]; rfl
    rw [if_pos hsp]
    refine ⟨fun _ => LaneFMA.packFloatS_box _, ?_⟩
    rw [SignSet, recS_packFloatS, (sj_eq hop hsign).1]
    rfl
  | half => exact absurd rfl hp

end

/-- The result is that of the operation in the first stage. -/
theorem result_nextResult : x.Result op (nextResult x) := by
  cases op with
  | add => exact integer hop rfl (by simp)
  | sub => exact integer hop rfl (by simp)
  | sll => exact integer hop rfl (by simp)
  | srl => exact integer hop rfl (by simp)
  | sra => exact integer hop rfl (by simp)
  | and => exact integer hop rfl (by simp)
  | or => exact integer hop rfl (by simp)
  | xor => exact integer hop rfl (by simp)
  | slt => exact fun hupper => integer hop rfl fun _ => hupper
  | sltu => exact fun hupper => integer hop rfl fun _ => hupper
  | idx => exact (nextResult_of_op hop).trans rfl
  | mov1 => exact (nextResult_of_op hop).trans rfl
  | mov2 => exact (nextResult_of_op hop).trans rfl
  | movz => exact (nextResult_of_op hop).trans rfl
  | movn => exact (nextResult_of_op hop).trans rfl
  | feq => exact compares_feq hop rfl
  | flt => exact compares_flt hop rfl
  | fle => exact compares_fle hop rfl
  | fsj => exact injects hop (.inl ⟨rfl, rfl⟩)
  | fsjn => exact injects hop (.inr (.inl ⟨rfl, rfl⟩))
  | fsjx => exact injects hop (.inr (.inr ⟨rfl, rfl⟩))
  | fmin => exact chooses_fmin hop rfl
  | fmax => exact chooses_fmax hop rfl

end

/-! ### The pipeline -/

/-- **Every operation delivers its result and its mask.** In every run of the ALU, what comes out
two cycles after an operation is its result on its own operands, and what gates the write then is
its own mask, whatever comes before and after it. Nothing is gated after a bubble. -/
theorem executes {st : ℕ → BankALU} {i : ℕ → BankALUIn}
    (hrun : ∀ t, st (t + 1) = next (i t) (st t)) (t : ℕ) :
    ((i t).valid = true → ∀ op : VIUOp, (i t).fn.op = op.code →
      BankALUOp.Result ⟨(i t).fn, (i t).utidx, (i t).in0, (i t).in1⟩ op (out (st (t + 2))) ∧
      wenMasked (i (t + 2)) (st (t + 2)) = ((i (t + 2)).wen &&
        BankALUOp.mask ⟨(i t).fn, (i t).utidx, (i t).in0, (i t).in1⟩ op)) ∧
    ((i t).valid = false → wenMasked (i (t + 2)) (st (t + 2)) = (i (t + 2)).wen) := by
  refine ⟨fun hvalid op hop => ?_, fun hvalid => ?_⟩
  · have hfirst : (st (t + 1)).s1Valid = true ∧
        (st (t + 1)).s1 = ⟨(i t).fn, (i t).utidx, (i t).in0, (i t).in1⟩ := by
      rw [hrun t]
      exact ⟨hvalid, if_pos hvalid⟩
    rw [hrun (t + 1)]
    simp only [out, wenMasked, next, hfirst.1, hfirst.2, if_true]
    refine ⟨result_nextResult hop, ?_⟩
    rw [nextMask_eq hop, isOp_eq hop, isOp_eq hop]
    cases op <;> rfl
  · have hfirst : (st (t + 1)).s1Valid = false := by
      rw [hrun t]
      exact hvalid
    rw [hrun (t + 1)]
    simp only [wenMasked, next, hfirst]
    exact Bool.and_true _

/-- The registers after `t` cycles. -/
def run (i : ℕ → BankALUIn) : ℕ → BankALU
  | 0 => ⟨false, ⟨⟨0, 0, 0, 0, 0⟩, 0, 0, 0⟩, false, false, 0⟩
  | t + 1 => next (i t) (run i t)

/-- A conditional move, an addition, and then bubbles. -/
def moveThenAdd : ℕ → BankALUIn
  | 0 => ⟨true, false, ⟨ML, MR, DW64, FPS, VIUOp.movz.code⟩, 0, 1, 7⟩
  | 1 => ⟨true, false, ⟨ML, MR, DW64, FPS, VIUOp.add.code⟩, 0, 3, 4⟩
  | _ => ⟨false, true, ⟨ML, MR, DW64, FPS, VIUOp.add.code⟩, 0, 0, 0⟩

theorem executes_moveThenAdd :
    wenMasked (moveThenAdd 2) (run moveThenAdd 2) = false ∧
    wenMasked (moveThenAdd 3) (run moveThenAdd 3) = true ∧
    (out (run moveThenAdd 3)).setWidth 64 = 7 := by
  have hrun : ∀ t, run moveThenAdd (t + 1) = next (moveThenAdd t) (run moveThenAdd t) :=
    fun _ => rfl
  obtain ⟨-, hmove⟩ := (executes hrun 0).1 rfl .movz rfl
  obtain ⟨⟨hsum, -⟩, hadd⟩ := (executes hrun 1).1 rfl .add rfl
  exact ⟨hmove, hadd, hsum⟩

/-- An operation that enters in every cycle. -/
def steady (dw : BitVec 1) (fp : BitVec 2) (op : VIUOp) (in0 in1 : BitVec 66) : ℕ → BankALUIn :=
  fun _ => ⟨true, true, ⟨ML, MR, dw, fp, op.code⟩, 0, in0, in1⟩

/-- Two halves are never compared, a comparison of integers looks at the bits above them, a sign is
cut off in word mode, and a positive zero may differ from another one. -/
theorem not_executes :
    ((datum .half 0 0xFC00).less (datum .half 0 0x7C00) = true ∧
      out (run (steady DW64 FPH .flt 0xFC00 0x7C00) 2) = 0) ∧
    (((0x10000000000000000 : BitVec 66).setWidth 64).ult 1 = true ∧
      out (run (steady DW64 FPS .sltu 0x10000000000000000 1) 2) = 0) ∧
    (signIn .single (packFloatS 0x180000000) = true ∧
      signIn .single (out (run (steady DW32 FPS .fsj (packFloatS 0x180000000)
        (packFloatS 0x180000000)) 2)) = false) ∧
    (datum .single 0 (packFloatS 0)).equal (datum .single 0 (packFloatS 0x800000)) = true ∧
      out (run (steady DW64 FPS .feq (packFloatS 0) (packFloatS 0x800000)) 2) = 0 := by
  refine ⟨⟨?_, ?_⟩, ⟨?_, ?_⟩, ⟨?_, ?_⟩, ?_, ?_⟩
  · rfl
  · decide
  · decide
  · decide
  · decide
  · decide
  · rw [datum, datum, RecFloat.val_of_isZero (by decide), RecFloat.val_of_isZero (by decide)]
    exact decide_eq_true (Eq.refl (0 : ℚ))
  · decide

end BankALU

end Hwacha

end RiscvSoc
