import RiscvSoc.Lib.Words
import Mathlib.Tactic.IntervalCases

/-!
# Control-flow instructions

What the core reads off the bits of an instruction when it looks for a branch: the rows of
`BranchDecode` and of `Decode.table` in `boom/src/main/scala/decode.scala`, and the immediates of
the branch prediction stage in `dpath.scala`.

The two immediates of that stage are put together bit by bit there. `immB` and `immJ` are what the
instruction set says they are, and `brImm32_eq` and `jalImm32_eq` that the circuit agrees.
-/

namespace RiscvSoc

/-- An address of the front end, `vaddrBits + 1` bits wide. -/
abbrev VAddr : Type := BitVec 44

/-- `vaddrBits`. -/
def vaddrBits : ℕ := 43

namespace Inst

variable (inst : BitVec 32)

def opcode : BitVec 7 := inst.extractLsb' 0 7

def funct3 : BitVec 3 := inst.extractLsb' 12 3

/-- The conditions of a branch. -/
inductive BrType
  | eq
  | ne
  | lt
  | ge
  | ltu
  | geu
  deriving DecidableEq, Repr

/-- `BEQ`, `BNE`, `BLT`, `BGE`, `BLTU` and `BGEU`. -/
def brType : Option BrType :=
  if opcode inst = 0b1100011#7 then
    match (funct3 inst).toNat with
    | 0 => some .eq
    | 1 => some .ne
    | 4 => some .lt
    | 5 => some .ge
    | 6 => some .ltu
    | 7 => some .geu
    | _ => none
  else none

/-- `is_br`. -/
def isBr : Bool := (brType inst).isSome

/-- `is_jal`. -/
def isJal : Bool := decide (opcode inst = 0b1101111#7)

/-- The row of `JALR`. -/
def isJalr : Bool := decide (opcode inst = 0b1100111#7) && decide (funct3 inst = 0b000#3)

/-- `cs_br_or_jmp`. -/
def isBrOrJmp : Bool := isBr inst || isJal inst || isJalr inst

/-! ### Immediates -/

def immB : BitVec 13 :=
  inst.extractLsb' 31 1 ++ inst.extractLsb' 7 1 ++ inst.extractLsb' 25 6 ++ inst.extractLsb' 8 4 ++
    0#1

def immJ : BitVec 21 :=
  inst.extractLsb' 31 1 ++ inst.extractLsb' 12 8 ++ inst.extractLsb' 20 1 ++
    inst.extractLsb' 21 10 ++ 0#1

def immI : BitVec 12 := inst.extractLsb' 20 12

/-- `bp2_br_imm32`. -/
def brImm32 : BitVec 32 :=
  BitVec.fill 12 (inst.getLsbD 31) ++ BitVec.fill 8 (inst.getLsbD 31) ++ inst.extractLsb' 7 1 ++
    inst.extractLsb' 25 6 ++ inst.extractLsb' 8 4 ++ 0#1

/-- `bp2_jal_imm32`. -/
def jalImm32 : BitVec 32 :=
  BitVec.fill 12 (inst.getLsbD 31) ++ inst.extractLsb' 12 8 ++ inst.extractLsb' 20 1 ++
    inst.extractLsb' 25 6 ++ inst.extractLsb' 21 4 ++ 0#1

/-! ### What they are -/

theorem brImm32_eq : brImm32 inst = (immB inst).signExtend 32 := by
  ext i hi
  rw [← BitVec.getLsbD_eq_getElem, ← BitVec.getLsbD_eq_getElem]
  simp only [brImm32, immB, BitVec.getLsbD_append, BitVec.getLsbD_signExtend,
    BitVec.msb_eq_getLsbD_last, BitVec.getLsbD_extractLsb', BitVec.getLsbD_fill]
  interval_cases i <;> simp

theorem jalImm32_eq : jalImm32 inst = (immJ inst).signExtend 32 := by
  ext i hi
  rw [← BitVec.getLsbD_eq_getElem, ← BitVec.getLsbD_eq_getElem]
  simp only [jalImm32, immJ, BitVec.getLsbD_append, BitVec.getLsbD_signExtend,
    BitVec.msb_eq_getLsbD_last, BitVec.getLsbD_extractLsb', BitVec.getLsbD_fill]
  interval_cases i <;> simp

theorem immB_even : (immB inst).getLsbD 0 = false := by
  rw [immB, BitVec.getLsbD_append]
  rfl

theorem immJ_even : (immJ inst).getLsbD 0 = false := by
  rw [immJ, BitVec.getLsbD_append]
  rfl

theorem isJal_of_isBr (h : isBr inst = true) : isJal inst = false := by
  rw [isBr, brType] at h
  by_cases hop : opcode inst = 0b1100011#7
  · rw [isJal, hop]
    rfl
  · rw [if_neg hop] at h
    cases h

/-- The offset of a direct branch or jump. -/
def offset (n : ℕ) : BitVec n :=
  if isJal inst then (immJ inst).signExtend n else (immB inst).signExtend n

end Inst

/-- Where the branch or jump at an address goes. -/
def ownTarget (pc : VAddr) (inst : BitVec 32) : VAddr := pc + Inst.offset inst 44

/-- `s1_pc_ & SInt(-2)`. -/
def discardLsb (a : VAddr) : VAddr := a &&& ~~~1#44

theorem discardLsb_toNat (a : VAddr) : (discardLsb a).toNat = a.toNat / 2 * 2 := by
  have h : discardLsb a = (a >>> 1) <<< 1 := by
    apply BitVec.eq_of_getLsbD_eq
    intro i hi
    simp only [discardLsb, BitVec.getLsbD_and, BitVec.getLsbD_not, BitVec.getLsbD_one,
      BitVec.getLsbD_shiftLeft, BitVec.getLsbD_ushiftRight, hi]
    rcases i with _ | i
    · simp
    · simp [Nat.add_comm]
  rw [h, BitVec.toNat_shiftLeft, BitVec.toNat_ushiftRight, Nat.shiftLeft_eq,
    Nat.shiftRight_eq_div_pow, Nat.mod_eq_of_lt]
  have := a.isLt
  omega

end RiscvSoc
