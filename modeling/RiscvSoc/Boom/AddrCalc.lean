import RiscvSoc.Boom.BranchUnit
import RiscvSoc.Rocket.ALU

/-!
# Packed immediates

The decoder packs the immediate of an instruction into 20 bits (`immPacked`), and two places take
it apart again: `ImmGen`, by the selector it was packed with, and `MemAddrCalcUnit` of
`boom/src/main/scala/functional_unit.scala`, which takes bits 19 to 8 whatever the selector says.
Here they are compared with the five immediates of the instruction set.
-/

namespace RiscvSoc

/-! ### The immediates -/

namespace Inst

variable (inst : BitVec 32)

def immS : BitVec 12 := inst.extractLsb' 25 7 ++ inst.extractLsb' 7 5

def immU : BitVec 32 := inst.extractLsb' 12 20 ++ 0#12

end Inst

/-- The immediate of an instruction of each format, sign-extended to a register. -/
def ImmSel.imm (sel : ImmSel) (inst : BitVec 32) : Word :=
  match sel with
  | .i => (Inst.immI inst).signExtend 64
  | .s => (Inst.immS inst).signExtend 64
  | .b => (Inst.immB inst).signExtend 64
  | .u => (Inst.immU inst).signExtend 64
  | .j => (Inst.immJ inst).signExtend 64

/-- `Sext(imm_xprlen, 64)`. -/
def aluImm (ip : BitVec 20) (sel : ImmSel) : Word := (immGen ip sel).signExtend 64

/-- `Cat(imm_packed(19,8)).toSInt`, as wide as the operand it is connected to. -/
def addrImm (ip : BitVec 20) : Word := (ip.extractLsb' 8 12).signExtend 64

variable (inst : BitVec 32) (sel : ImmSel)

theorem immGen_immPacked :
    immGen (immPacked inst sel) sel = (sel.imm inst).setWidth 32 := by
  apply BitVec.eq_of_getLsbD_eq
  intro i hi
  cases sel
  all_goals
    simp only [immGen, immPacked, ImmSel.imm, Inst.immI, Inst.immS, Inst.immB, Inst.immU,
      Inst.immJ, BitVec.getLsbD_setWidth, BitVec.getLsbD_append, BitVec.getLsbD_signExtend,
      BitVec.msb_eq_getLsbD_last, BitVec.getLsbD_extractLsb', BitVec.getLsbD_fill, reduceCtorEq,
      or_true, or_false, if_true, if_false]
    interval_cases i <;> simp

theorem ImmSel.signExtend_imm (inst : BitVec 32) :
    ((sel.imm inst).setWidth 32).signExtend 64 = sel.imm inst := by
  cases sel
  · rw [imm, setWidth_signExtend _ (by decide), signExtend_signExtend _ (by decide)]
  · rw [imm, setWidth_signExtend _ (by decide), signExtend_signExtend _ (by decide)]
  · rw [imm, setWidth_signExtend _ (by decide), signExtend_signExtend _ (by decide)]
  · rw [imm, setWidth_signExtend _ (by decide), BitVec.signExtend_eq]
  · rw [imm, setWidth_signExtend _ (by decide), signExtend_signExtend _ (by decide)]

theorem extract_immPacked :
    (immPacked inst sel).extractLsb' 8 12 =
      if sel = .b ∨ sel = .s then Inst.immS inst else Inst.immI inst := by
  apply BitVec.eq_of_getLsbD_eq
  intro i hi
  split_ifs with h
  all_goals
    simp only [immPacked, h, if_true, if_false, Inst.immI, Inst.immS,
      BitVec.getLsbD_append, BitVec.getLsbD_extractLsb']
    interval_cases i <;> simp

theorem addrImm_immPacked {inst : BitVec 32} {sel : ImmSel} (h : sel = .i ∨ sel = .s) :
    addrImm (immPacked inst sel) = sel.imm inst := by
  rcases h with rfl | rfl
  · rw [addrImm, extract_immPacked, if_neg (by decide), ImmSel.imm]
  · rw [addrImm, extract_immPacked, if_pos (by decide), ImmSel.imm]

/-- For every instruction and format, expanding the packed immediate by the selector it was packed
with gives the immediate of the instruction, and so does the slice of the address unit in the
formats of loads and stores. -/
theorem imm_round_trip (inst : BitVec 32) (sel : ImmSel) :
    aluImm (immPacked inst sel) sel = sel.imm inst ∧
      (sel = .i ∨ sel = .s → addrImm (immPacked inst sel) = sel.imm inst) := by
  constructor
  · rw [aluImm, immGen_immPacked, sel.signExtend_imm]
  · exact addrImm_immPacked

end RiscvSoc
