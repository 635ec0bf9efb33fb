import Mathlib.Data.Nat.Notation

/-!
# Instructions of the vector unit

The decode table of `Hwacha`. A row has the bits of an instruction that are given, and the control
signals for it. Some columns go together: the command is a don't-care exactly when the row says that
it has none, and so are the register numbers and the kind of the response.

`DecodeLogic` gives a don't-care any value, and a different one for each instruction; `DontCares` is
what it gives.
-/

namespace RiscvSoc

namespace Hwacha

/-- The bits that an instruction is known by. -/
structure InstPattern where
  funct : Option (BitVec 7)
  rs2 : Option (BitVec 5)
  rs1 : Option (BitVec 5)
  funct3 : BitVec 3
  rd : Option (BitVec 5)
  opcode : BitVec 7

/-- A field is open, or has this value. -/
def InstPattern.agrees {w : ℕ} (field : Option (BitVec w)) (x : BitVec w) : Bool :=
  match field with
  | none => true
  | some y => decide (x = y)

def InstPattern.matches (p : InstPattern) (inst : BitVec 32) : Bool :=
  agrees p.funct (inst.extractLsb' 25 7) && agrees p.rs2 (inst.extractLsb' 20 5) &&
    agrees p.rs1 (inst.extractLsb' 15 5) && decide (inst.extractLsb' 12 3 = p.funct3) &&
      agrees p.rd (inst.extractLsb' 7 5) && decide (inst.extractLsb' 0 7 = p.opcode)

/-- Which of the four queues of a `VCMDQ` get an entry. -/
structure Emits where
  cmd : Bool
  imm1 : Bool
  imm2 : Bool
  cnt : Bool

/-- The columns for the registers: `rtype` is for the floating-point registers, and a register is
that of `rd` instead of `rs1`. -/
structure VRegs where
  rtype : Bool
  reg1 : Bool
  reg2 : Bool

/-- What is not given by a row. -/
structure DontCares where
  vcmd : BitVec 8
  regs : VRegs
  imm1 : BitVec 3
  imm2 : BitVec 3
  resp : BitVec 3

/-- One line of the table. -/
structure HwachaRow where
  pat : InstPattern
  instVal : Bool
  priv : Bool
  vcmd : Option (BitVec 8)
  regs : Option VRegs
  imm1 : Option (BitVec 3)
  imm2 : Option (BitVec 3)
  checkVl : Bool
  emit : Emits
  checkPfq : Bool
  pf : Emits
  resp : Option (BitVec 3)
  evac : Bool
  hold : Bool
  kill : Bool

/-! ### Columns -/

/-- `VIMM_VLEN`, `VIMM_RS1`, `VIMM_RS2`, `VIMM_ADDR`. -/
def vimmVlen : BitVec 3 := 0

def vimmRs1 : BitVec 3 := 1

def vimmRs2 : BitVec 3 := 2

def vimmAddr : BitVec 3 := 3

/-- `RESP_NVL`, `RESP_CAUSE`, `RESP_AUX`, `RESP_CFG`, `RESP_VL`. -/
def respNvl : BitVec 3 := 0

def respCause : BitVec 3 := 1

def respAux : BitVec 3 := 2

def respCfg : BitVec 3 := 3

def respVl : BitVec 3 := 4

/-- `CMD_VSETCFG`. -/
def cmdVsetcfg : BitVec 8 := 0b00000000

/-- `CMD_VSETVL`. -/
def cmdVsetvl : BitVec 8 := 0b00000010

def Emits.none : Emits := ⟨false, false, false, false⟩

def Emits.cmdOnly : Emits := ⟨true, false, false, false⟩

def Emits.cmdImm1 : Emits := ⟨true, true, false, false⟩

def Emits.cmdImm1Imm2 : Emits := ⟨true, true, true, false⟩

/-! ### Rows -/

namespace HwachaRow

/-- An instruction that sets the configuration. -/
def setting (pat : InstPattern) (vcmd : BitVec 8) (resp : Option (BitVec 3)) : HwachaRow :=
  ⟨pat, true, false, some vcmd, none, some vimmVlen, none, false, .cmdImm1, false, .cmdImm1, resp,
    false, false, false⟩

def vsetcfg : HwachaRow := setting ⟨none, none, none, 2, some 0, 0x0b⟩ cmdVsetcfg none

def vsetvl : HwachaRow :=
  setting ⟨some 0, some 0, none, 6, none, 0x0b⟩ cmdVsetvl (some respNvl)

/-- An instruction that only has an answer. -/
def asking (pat : InstPattern) (priv : Bool) (resp : BitVec 3) : HwachaRow :=
  ⟨pat, true, priv, none, none, none, none, false, .none, false, .none, some resp, false, false,
    false⟩

def vgetcfg : HwachaRow := asking ⟨some 0, some 0, some 0, 4, none, 0x0b⟩ false respCfg

def vgetvl : HwachaRow := asking ⟨some 1, some 0, some 0, 4, none, 0x0b⟩ false respVl

def vf : HwachaRow :=
  ⟨⟨none, some 1, none, 2, none, 0x2b⟩, true, false, some 0b00000011, none, some vimmAddr, none,
    true, .cmdImm1, false, .none, none, false, false, false⟩

/-- A move from a vector register. -/
def vectorMove (funct : BitVec 7) (fp : Bool) (vcmd : BitVec 8) : HwachaRow :=
  ⟨⟨some funct, some 0, none, 0, none, 0x2b⟩, true, false, some vcmd, some ⟨fp, true, false⟩, none,
    none, true, .cmdOnly, false, .none, none, false, false, false⟩

def vmvv : HwachaRow := vectorMove 1 false 0b01000000

def vfmvv : HwachaRow := vectorMove 8 true 0b01000001

/-- A move from a scalar register. -/
def scalarMove (funct : BitVec 7) (fp : Bool) (vcmd : BitVec 8) : HwachaRow :=
  ⟨⟨some funct, some 0, none, 2, none, 0x2b⟩, true, false, some vcmd, some ⟨fp, true, true⟩,
    some vimmRs1, none, true, .cmdImm1, false, .none, none, false, false, false⟩

def vmsv : HwachaRow := scalarMove 1 false 0b01001000

def vfmsvS : HwachaRow := scalarMove 8 true 0b01001001

def vfmsvD : HwachaRow := scalarMove 9 true 0b01011001

/-- A load or a store of a whole vector. -/
def unitStride (opcode funct : BitVec 7) (fp : Bool) (vcmd : BitVec 8) : HwachaRow :=
  ⟨⟨some funct, some 0, none, 2, none, opcode⟩, true, false, some vcmd, some ⟨fp, true, true⟩,
    some vimmRs1, none, true, .cmdImm1, false, .cmdImm1, none, false, false, false⟩

/-- One with a stride. -/
def strided (opcode funct : BitVec 7) (fp : Bool) (vcmd : BitVec 8) : HwachaRow :=
  ⟨⟨some funct, none, none, 3, none, opcode⟩, true, false, some vcmd, some ⟨fp, true, true⟩,
    some vimmRs1, some vimmRs2, true, .cmdImm1Imm2, false, .cmdImm1Imm2, none, false, false, false⟩

def vld : HwachaRow := unitStride 0x5b 3 false 0b10000011

def vlw : HwachaRow := unitStride 0x5b 2 false 0b10000010

def vlwu : HwachaRow := unitStride 0x5b 6 false 0b10000110

def vlh : HwachaRow := unitStride 0x5b 1 false 0b10000001

def vlhu : HwachaRow := unitStride 0x5b 5 false 0b10000101

def vlb : HwachaRow := unitStride 0x5b 0 false 0b10000000

def vlbu : HwachaRow := unitStride 0x5b 4 false 0b10000100

def vsd : HwachaRow := unitStride 0x7b 3 false 0b10010011

def vsw : HwachaRow := unitStride 0x7b 2 false 0b10010010

def vsh : HwachaRow := unitStride 0x7b 1 false 0b10010001

def vsb : HwachaRow := unitStride 0x7b 0 false 0b10010000

def vfld : HwachaRow := unitStride 0x5b 11 true 0b10001011

def vflw : HwachaRow := unitStride 0x5b 10 true 0b10001010

def vfsd : HwachaRow := unitStride 0x7b 11 true 0b10011011

def vfsw : HwachaRow := unitStride 0x7b 10 true 0b10011010

def vlstd : HwachaRow := strided 0x5b 3 false 0b10100011

def vlstw : HwachaRow := strided 0x5b 2 false 0b10100010

def vlstwu : HwachaRow := strided 0x5b 6 false 0b10100110

def vlsth : HwachaRow := strided 0x5b 1 false 0b10100001

def vlsthu : HwachaRow := strided 0x5b 5 false 0b10100101

def vlstb : HwachaRow := strided 0x5b 0 false 0b10100000

def vlstbu : HwachaRow := strided 0x5b 4 false 0b10100100

def vsstd : HwachaRow := strided 0x7b 3 false 0b10110011

def vsstw : HwachaRow := strided 0x7b 2 false 0b10110010

def vssth : HwachaRow := strided 0x7b 1 false 0b10110001

def vsstb : HwachaRow := strided 0x7b 0 false 0b10110000

def vflstd : HwachaRow := strided 0x5b 11 true 0b10101011

def vflstw : HwachaRow := strided 0x5b 10 true 0b10101010

def vfsstd : HwachaRow := strided 0x7b 11 true 0b10111011

def vfsstw : HwachaRow := strided 0x7b 10 true 0b10111010

def vxcptcause : HwachaRow := asking ⟨some 0, some 0, some 0, 4, none, 0x2b⟩ true respCause

def vxcptaux : HwachaRow := asking ⟨some 1, some 0, some 0, 4, none, 0x2b⟩ true respAux

/-- An instruction for exceptions that emits nothing. -/
def control (funct : BitVec 7) (rs1 : Option (BitVec 5)) (instVal evac hold kill : Bool) :
    HwachaRow :=
  ⟨⟨some funct, some 0, rs1, 3, some 0, 0x2b⟩, instVal, true, none, none, none, none, false, .none,
    false, .none, none, evac, hold, kill⟩

/-- Neither of the two is implemented. -/
def vxcptsave : HwachaRow := control 0 none false false false false

def vxcptrestore : HwachaRow := control 1 none false false false false

def vxcptevac : HwachaRow := control 3 none true true false false

def vxcpthold : HwachaRow := control 4 (some 0) true false true false

def vxcptkill : HwachaRow := control 2 (some 0) true false false true

/-- An instruction that puts its operand into a queue. -/
def enqueue (funct : BitVec 7) (imm1 imm2 : Option (BitVec 3)) (emit : Emits) : HwachaRow :=
  ⟨⟨some funct, none, none, 3, some 0, 0x2b⟩, true, true, none, none, imm1, imm2, false, emit, true,
    emit, none, false, false, false⟩

def venqcmd : HwachaRow := enqueue 5 none none .cmdOnly

def venqimm1 : HwachaRow := enqueue 6 (some vimmRs1) none ⟨false, true, false, false⟩

def venqimm2 : HwachaRow := enqueue 7 none (some vimmRs1) ⟨false, false, true, false⟩

def venqcnt : HwachaRow := enqueue 8 none none ⟨false, false, false, true⟩

/-- `HwachaDecodeTable.table`. -/
def table : List HwachaRow :=
  [vsetcfg, vsetvl, vgetcfg, vgetvl, vf, vmvv, vmsv, vfmvv, vfmsvS, vfmsvD, vld, vlw, vlwu, vlh,
    vlhu, vlb, vlbu, vsd, vsw, vsh, vsb, vfld, vflw, vfsd, vfsw, vlstd, vlstw, vlstwu, vlsth,
    vlsthu, vlstb, vlstbu, vsstd, vsstw, vssth, vsstb, vflstd, vflstw, vfsstd, vfsstw, vxcptcause,
    vxcptaux,
    vxcptsave, vxcptrestore, vxcptevac, vxcpthold, vxcptkill, venqcmd, venqimm1, venqimm2, venqcnt]

end HwachaRow

/-! ### Control signals -/

structure HwachaCtrl where
  instVal : Bool
  priv : Bool
  vcmdValid : Bool
  selVcmd : BitVec 8
  vrValid : Bool
  vr : VRegs
  selVimm1 : BitVec 3
  selVimm2 : BitVec 3
  checkVl : Bool
  emit : Emits
  checkPfq : Bool
  pf : Emits
  emitResponse : Bool
  selResp : BitVec 3
  declEvac : Bool
  declHold : Bool
  declKill : Bool

namespace HwachaCtrl

def ofRow (x : DontCares) (row : HwachaRow) : HwachaCtrl where
  instVal := row.instVal
  priv := row.priv
  vcmdValid := row.vcmd.isSome
  selVcmd := row.vcmd.getD x.vcmd
  vrValid := row.regs.isSome
  vr := row.regs.getD x.regs
  selVimm1 := row.imm1.getD x.imm1
  selVimm2 := row.imm2.getD x.imm2
  checkVl := row.checkVl
  emit := row.emit
  checkPfq := row.checkPfq
  pf := row.pf
  emitResponse := row.resp.isSome
  selResp := row.resp.getD x.resp
  declEvac := row.evac
  declHold := row.hold
  declKill := row.kill

/-- `HwachaDecodeTable.default`. -/
def default (x : DontCares) : HwachaCtrl :=
  ⟨false, false, false, x.vcmd, false, x.regs, x.imm1, x.imm2, false, .none, false, .none, false,
    x.resp, false, false, false⟩

/-- The signals of an instruction. -/
def decode (x : BitVec 32 → DontCares) (inst : BitVec 32) : HwachaCtrl :=
  match HwachaRow.table.find? fun row => row.pat.matches inst with
  | some row => ofRow (x inst) row
  | none => default (x inst)

/-- No row that sets the configuration depends on the vector length. -/
theorem setting_of_mem {row : HwachaRow} (h : row ∈ HwachaRow.table) (hcheck : row.checkVl = true) :
    row.vcmd ≠ some cmdVsetcfg ∧ row.vcmd ≠ some cmdVsetvl := by
  have hall : ∀ row ∈ HwachaRow.table, row.checkVl = true →
      row.vcmd ≠ some cmdVsetcfg ∧ row.vcmd ≠ some cmdVsetvl := by decide
  exact hall row h hcheck

/-- An instruction that depends on the vector length does not set the configuration. -/
theorem not_setting_of_checkVl {x : BitVec 32 → DontCares} {inst : BitVec 32}
    (hcheck : (decode x inst).checkVl = true) (hvcmd : (decode x inst).vcmdValid = true) :
    (decode x inst).selVcmd ≠ cmdVsetcfg ∧ (decode x inst).selVcmd ≠ cmdVsetvl := by
  rw [decode] at hcheck hvcmd ⊢
  cases hrow : HwachaRow.table.find? fun row => row.pat.matches inst with
  | none =>
    rw [hrow] at hcheck
    cases hcheck
  | some row =>
    rw [hrow] at hcheck hvcmd
    obtain ⟨vcmd, hvcmd⟩ := Option.isSome_iff_exists.mp hvcmd
    obtain ⟨hcfg, hvl⟩ := setting_of_mem (List.mem_of_find?_eq_some hrow) hcheck
    rw [hvcmd] at hcfg hvl
    show row.vcmd.getD _ ≠ _ ∧ row.vcmd.getD _ ≠ _
    rw [hvcmd]
    exact ⟨fun h => hcfg (congrArg some h), fun h => hvl (congrArg some h)⟩

end HwachaCtrl

end Hwacha

end RiscvSoc
