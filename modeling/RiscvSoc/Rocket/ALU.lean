import RiscvSoc.Lib.Words
import RiscvSoc.Uncore.MemTyp

/-!
# The integer ALU

`ALU` from `rocket/src/main/scala/dpath_alu.scala`, the module that both cores instantiate. It has
one adder, which is made to subtract by the top bit of the function code, and one right shifter,
which shifts left between two bit reversals. The comparisons read the sign of the difference, or
where the operands' signs differ one of those signs.

## Word mode

Only additions, subtractions and shifts have a word form in the instruction set. The circuit has one
for every function: it replaces the upper half of the result by copies of bit 31. For a comparison
that changes nothing, which is what the branch rows of the decode table rely on, since they leave
the mode open.
-/

namespace RiscvSoc

/-- The inputs of `ALUIO`; `dw` is `DW_64`. -/
structure ALU where
  dw : Bool
  fn : BitVec 4
  in2 : Word
  in1 : Word

namespace ALU

/-! ### Function codes -/

abbrev FN_ADD : BitVec 4 := 0
abbrev FN_SL : BitVec 4 := 1
abbrev FN_XOR : BitVec 4 := 4
abbrev FN_OR : BitVec 4 := 6
abbrev FN_AND : BitVec 4 := 7
abbrev FN_SR : BitVec 4 := 5
abbrev FN_SEQ : BitVec 4 := 8
abbrev FN_SNE : BitVec 4 := 9
abbrev FN_SUB : BitVec 4 := 10
abbrev FN_SRA : BitVec 4 := 11
abbrev FN_SLT : BitVec 4 := 12
abbrev FN_SGE : BitVec 4 := 13
abbrev FN_SLTU : BitVec 4 := 14
abbrev FN_SGEU : BitVec 4 := 15

def isSub (cmd : BitVec 4) : Bool := cmd.getLsbD 3

def cmpUnsigned (cmd : BitVec 4) : Bool := cmd.getLsbD 1

def cmpInverted (cmd : BitVec 4) : Bool := cmd.getLsbD 0

def cmpEq (cmd : BitVec 4) : Bool := !cmd.getLsbD 2

/-! ### The circuit -/

variable (io : ALU)

def sum : Word := io.in1 + if isSub io.fn then -io.in2 else io.in2

def cmp : Bool :=
  cmpInverted io.fn ^^
    if cmpEq io.fn then io.sum == 0
    else if io.in1.getLsbD 63 == io.in2.getLsbD 63 then io.sum.getLsbD 63
    else if cmpUnsigned io.fn then io.in2.getLsbD 63 else io.in1.getLsbD 63

def shamt : BitVec 6 := BitVec.ofBool (io.in2.getLsbD 5 && io.dw) ++ io.in2.extractLsb' 0 5

def shinHi32 : BitVec 32 := if isSub io.fn then BitVec.fill 32 (io.in1.getLsbD 31) else 0

def shinHi : BitVec 32 := if io.dw then io.in1.extractLsb' 32 32 else io.shinHi32

def shinR : Word := io.shinHi ++ io.in1.extractLsb' 0 32

def shin : Word := if io.fn = FN_SR ∨ io.fn = FN_SRA then io.shinR else io.shinR.reverse

def shoutR : Word :=
  ((BitVec.ofBool (isSub io.fn && io.shin.getLsbD 63) ++ io.shin).sshiftRight
    io.shamt.toNat).setWidth 64

def shoutL : Word := io.shoutR.reverse

def out64 : Word :=
  if io.fn = FN_ADD ∨ io.fn = FN_SUB then io.sum
  else if io.fn = FN_SR ∨ io.fn = FN_SRA then io.shoutR
  else if io.fn = FN_SL then io.shoutL
  else if io.fn = FN_AND then io.in1 &&& io.in2
  else if io.fn = FN_OR then io.in1 ||| io.in2
  else if io.fn = FN_XOR then io.in1 ^^^ io.in2
  else (BitVec.ofBool io.cmp).setWidth 64

def outHi : BitVec 32 :=
  if io.dw then io.out64.extractLsb' 32 32 else BitVec.fill 32 (io.out64.getLsbD 31)

def out : Word := io.outHi ++ io.out64.extractLsb' 0 32

def adderOut : Word := io.sum

end ALU

/-! ### What the instruction set asks for -/

/-- The functions in the decode tables of the two cores. -/
inductive AluOp
  | add
  | sl
  | xor
  | or
  | and
  | sr
  | seq
  | sne
  | sub
  | sra
  | slt
  | sge
  | sltu
  | sgeu
  deriving DecidableEq, Repr

namespace AluOp

/-- The code the decoder gives. -/
def fn : AluOp → BitVec 4
  | add => ALU.FN_ADD
  | sl => ALU.FN_SL
  | xor => ALU.FN_XOR
  | or => ALU.FN_OR
  | and => ALU.FN_AND
  | sr => ALU.FN_SR
  | seq => ALU.FN_SEQ
  | sne => ALU.FN_SNE
  | sub => ALU.FN_SUB
  | sra => ALU.FN_SRA
  | slt => ALU.FN_SLT
  | sge => ALU.FN_SGE
  | sltu => ALU.FN_SLTU
  | sgeu => ALU.FN_SGEU

/-- The comparisons. -/
def test (a b : Word) : AluOp → Option Bool
  | seq => some (a == b)
  | sne => some (a != b)
  | slt => some (a.slt b)
  | sge => some (!a.slt b)
  | sltu => some (a.ult b)
  | sgeu => some (!a.ult b)
  | _ => none

/-- The arithmetic and logic functions on registers of `w` bits. A shift amount is taken modulo
the width. -/
def eval {w : ℕ} (a b : BitVec w) : AluOp → BitVec w
  | add => a + b
  | sub => a - b
  | sl => a <<< (b.toNat % w)
  | sr => a >>> (b.toNat % w)
  | sra => a.sshiftRight (b.toNat % w)
  | xor => a ^^^ b
  | or => a ||| b
  | and => a &&& b
  | _ => 0

/-- The result of an instruction. A comparison is of whole registers in either mode. -/
def result (op : AluOp) (dw : Bool) (a b : Word) : Word :=
  match test a b op with
  | some t => if t then 1 else 0
  | none => if dw then eval a b op else (eval (a.setWidth 32) (b.setWidth 32) op).signExtend 64

end AluOp

namespace ALU

/-! ### The adder and the comparator -/

section Adder

variable (dw : Bool) (op : AluOp) (a b : Word)

theorem sum_eq : sum ⟨dw, op.fn, b, a⟩ = if isSub op.fn then a - b else a + b := by
  rw [sum]
  split
  · rw [← BitVec.sub_eq_add_neg]
  · rfl

theorem cmp_eq {t : Bool} (h : AluOp.test a b op = some t) : cmp ⟨dw, op.fn, b, a⟩ = t := by
  have hmsb (x : Word) : x.getLsbD 63 = x.msb := (BitVec.msb_eq_getLsbD_last x).symm
  have hzero : (a - b == 0#64) = (a == b) := by
    rw [Bool.eq_iff_iff, beq_iff_eq, beq_iff_eq, BitVec.sub_eq_iff_eq_add, BitVec.zero_add]
  rw [cmp, sum_eq]
  simp only [hmsb]
  cases op <;> simp only [AluOp.test, reduceCtorEq, Option.some.injEq] at h <;> subst h
  case seq => simpa [AluOp.fn, cmpInverted, cmpEq, isSub] using hzero
  case sne => simp [AluOp.fn, cmpInverted, cmpEq, isSub, hzero, bne]
  case slt => simpa [AluOp.fn, cmpInverted, cmpEq, isSub, cmpUnsigned] using slt_of_sub a b
  case sge =>
    simpa [AluOp.fn, cmpInverted, cmpEq, isSub, cmpUnsigned] using congrArg not (slt_of_sub a b)
  case sltu => simpa [AluOp.fn, cmpInverted, cmpEq, isSub, cmpUnsigned] using ult_of_sub a b
  case sgeu =>
    simpa [AluOp.fn, cmpInverted, cmpEq, isSub, cmpUnsigned] using congrArg not (ult_of_sub a b)

end Adder

/-! ### The shifter -/

section Shifter

variable (dw : Bool) (op : AluOp) (a b : Word)

theorem shamt_eq :
    (shamt ⟨dw, op.fn, b, a⟩).toNat = if dw then b.toNat % 64 else b.toNat % 32 := by
  have h5 : b.getLsbD 5 = decide (b.toNat / 32 % 2 = 1) := Nat.testBit_eq_decide_div_mod_eq
  rw [shamt, BitVec.toNat_append, BitVec.extractLsb'_toNat,
    ← Nat.shiftLeft_add_eq_or_of_lt (Nat.mod_lt _ (by decide)), Nat.shiftRight_zero,
    Nat.shiftLeft_eq, BitVec.toNat_ofBool, h5]
  cases dw
  · simp
  · by_cases h : b.toNat / 32 % 2 = 1
    · rw [decide_eq_true h]
      simp only [Bool.and_true, Bool.toNat_true, if_true]
      omega
    · rw [decide_eq_false h]
      simp only [Bool.and_true, Bool.toNat_false, if_true]
      omega

theorem fill_low (x : Word) :
    BitVec.fill 32 (x.getLsbD 31) ++ x.extractLsb' 0 32 = (x.setWidth 32).signExtend 64 := by
  have h := fill_append (k := 32) (x.setWidth 32) true
  rwa [BitVec.getLsbD_setWidth] at h

theorem shinR_eq : shinR ⟨dw, op.fn, b, a⟩ =
    if dw then a
    else if isSub op.fn then (a.setWidth 32).signExtend 64 else (a.setWidth 32).setWidth 64 := by
  rw [shinR, shinHi, shinHi32]
  cases dw
  · cases isSub op.fn
    · exact fill_append (k := 32) (a.setWidth 32) false
    · exact fill_low a
  · exact append_extract (k := 32) (n := 32) a

theorem shoutR_eq (h : op = .sr ∨ op = .sra) : shoutR ⟨dw, op.fn, b, a⟩ =
    let x := shinR ⟨dw, op.fn, b, a⟩
    let n := if dw then b.toNat % 64 else b.toNat % 32
    if isSub op.fn then x.sshiftRight n else x >>> n := by
  have hshin : shin ⟨dw, op.fn, b, a⟩ = shinR ⟨dw, op.fn, b, a⟩ := by
    rw [shin]
    rcases h with rfl | rfl <;> rfl
  rw [shoutR, shamt_eq, hshin]
  exact sshiftRight_ofBool_append ..

theorem shoutL_eq : shoutL ⟨dw, AluOp.sl.fn, b, a⟩ =
    shinR ⟨dw, AluOp.sl.fn, b, a⟩ <<< (if dw then b.toNat % 64 else b.toNat % 32) := by
  have hshin : shin ⟨dw, AluOp.sl.fn, b, a⟩ = (shinR ⟨dw, AluOp.sl.fn, b, a⟩).reverse := rfl
  rw [shoutL, shoutR, shamt_eq, hshin, ← reverse_ushiftRight_reverse]
  have hshift := sshiftRight_ofBool_append (isSub AluOp.sl.fn)
    (shinR ⟨dw, AluOp.sl.fn, b, a⟩).reverse (if dw then b.toNat % 64 else b.toNat % 32)
  rw [if_neg (show ¬isSub AluOp.sl.fn = true by decide)] at hshift
  exact congrArg BitVec.reverse hshift

end Shifter

/-! ### The result -/

theorem out_of_out64 (io : ALU) :
    io.out = if io.dw then io.out64 else (io.out64.setWidth 32).signExtend 64 := by
  rw [out, outHi]
  cases io.dw
  · exact fill_low _
  · exact append_extract (k := 32) (n := 32) _

variable {op : AluOp} {a b : Word}

theorem out64_of_test {dw : Bool} {t : Bool}
    (h : AluOp.test a b op = some t) : out64 ⟨dw, op.fn, b, a⟩ = if t then 1 else 0 := by
  have hcmp : out64 ⟨dw, op.fn, b, a⟩ = (BitVec.ofBool (cmp ⟨dw, op.fn, b, a⟩)).setWidth 64 := by
    cases op <;> simp only [AluOp.test, reduceCtorEq] at h <;> rfl
  rw [hcmp, cmp_eq _ _ _ _ h]
  cases t <;> rfl

/-- In double word mode the function is taken of the whole registers. -/
theorem out64_double (h : AluOp.test a b op = none) :
    out64 ⟨true, op.fn, b, a⟩ = AluOp.eval a b op := by
  cases op <;> simp only [AluOp.test, reduceCtorEq] at h
  case add => exact sum_eq true .add a b
  case sub => exact sum_eq true .sub a b
  case sl => exact (shoutL_eq true a b).trans (by rw [shinR_eq]; rfl)
  case sr => exact (shoutR_eq true .sr a b (.inl rfl)).trans (by rw [shinR_eq]; rfl)
  case sra => exact (shoutR_eq true .sra a b (.inr rfl)).trans (by rw [shinR_eq]; rfl)
  case xor => rfl
  case or => rfl
  case and => rfl

/-- In word mode the lower half of the result is the function of the lower halves. -/
theorem out64_word (h : AluOp.test a b op = none) :
    (out64 ⟨false, op.fn, b, a⟩).setWidth 32 =
      AluOp.eval (a.setWidth 32) (b.setWidth 32) op := by
  have hmod : (b.setWidth 32).toNat % 32 = b.toNat % 32 := by
    rw [BitVec.toNat_setWidth]
    omega
  cases op <;> simp only [AluOp.test, reduceCtorEq] at h
  case add =>
    rw [show out64 ⟨false, AluOp.add.fn, b, a⟩ = a + b from sum_eq false .add a b]
    exact BitVec.setWidth_add _ _ (by decide)
  case sub =>
    rw [show out64 ⟨false, AluOp.sub.fn, b, a⟩ = a - b from sum_eq false .sub a b]
    rw [AluOp.eval, BitVec.sub_eq_add_neg, BitVec.sub_eq_add_neg,
      BitVec.setWidth_add _ _ (by decide), BitVec.setWidth_neg_of_le (by decide)]
  case sl =>
    rw [show out64 ⟨false, AluOp.sl.fn, b, a⟩ = _ from shoutL_eq false a b, shinR_eq]
    simp [AluOp.eval, AluOp.fn, isSub]
  case sr =>
    rw [show out64 ⟨false, AluOp.sr.fn, b, a⟩ = _ from shoutR_eq false .sr a b (.inl rfl),
      shinR_eq, AluOp.eval, hmod]
    exact setWidth_ushiftRight_setWidth _ (by decide) _
  case sra =>
    rw [show out64 ⟨false, AluOp.sra.fn, b, a⟩ = _ from shoutR_eq false .sra a b (.inr rfl),
      shinR_eq, AluOp.eval, hmod]
    exact setWidth_sshiftRight_signExtend _ (by decide) _
  case xor => exact BitVec.setWidth_xor
  case or => exact BitVec.setWidth_or
  case and => exact BitVec.setWidth_and

theorem out_eq (op : AluOp) (dw : Bool) (in1 in2 : Word) :
    out ⟨dw, op.fn, in2, in1⟩ = op.result dw in1 in2 := by
  rw [out_of_out64, AluOp.result]
  cases htest : AluOp.test in1 in2 op with
  | some t =>
    rw [out64_of_test htest]
    cases dw <;> cases t <;> rfl
  | none =>
    cases dw
    · simp only [Bool.false_eq_true, if_false, out64_word htest]
    · exact out64_double htest

/-- For every function of the decoder and in either mode the output is the result of the
instruction, and the adder's output the sum of the operands, or their difference for a subtraction
or comparison. -/
theorem out_eq_result (op : AluOp) (dw : Bool) (in1 in2 : Word) :
    out ⟨dw, op.fn, in2, in1⟩ = op.result dw in1 in2 ∧
      adderOut ⟨dw, op.fn, in2, in1⟩ = if isSub op.fn then in1 - in2 else in1 + in2 :=
  ⟨out_eq op dw in1 in2, sum_eq dw op in1 in2⟩

end ALU

end RiscvSoc
