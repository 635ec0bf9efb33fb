import RiscvSoc.Hwacha.VMUTypes

/-!
# Commands and instructions of the issue stage

The decode tables of `IssueTVEC`, for the commands of the vector command queue, and of `IssueVT`,
for the instructions of a vector-fetch block. A row has the kinds of its registers and the
functional unit that it is for, with the function of that unit. The columns of the other units are
don't-cares, except for their `valid`.

`DecodeLogic` gives a don't-care any value, and a different one for each command or instruction;
`TVECDontCares` and `VTDontCares` are what it gives.
-/

namespace RiscvSoc

namespace Hwacha

/-! ### Columns -/

/-- The kind of a register: none, integer or floating-point. -/
inductive RCol
  | R_
  | RX
  | RF
  deriving DecidableEq

/-- What `parse_rinfo` makes of it. -/
structure RInfo where
  val : Bool
  fp : Bool
  deriving DecidableEq

/-- Without a register, the other bit is a don't-care. -/
def RCol.info (c : RCol) (fp : Bool) : RInfo :=
  match c with
  | R_ => ⟨false, fp⟩
  | RX => ⟨true, false⟩
  | RF => ⟨true, true⟩

def M0 : BitVec 2 := 0b00

def MR : BitVec 2 := 0b01

def ML : BitVec 2 := 0b10

def MI : BitVec 2 := 0b11

def DW32 : BitVec 1 := 0

def DW64 : BitVec 1 := 1

def FPS : BitVec 2 := 0b00

def FPD : BitVec 2 := 0b01

def FPH : BitVec 2 := 0b10

/-- `IMM_0`, `IMM_I`, `IMM_S`, `IMM_U`. -/
def IMM_0 : BitVec 2 := 0

def IMM_I : BitVec 2 := 1

def IMM_S : BitVec 2 := 2

def IMM_U : BitVec 2 := 3

namespace VMUFn

def MT_B : BitVec 3 := 0b000

def MT_H : BitVec 3 := 0b001

def MT_W : BitVec 3 := 0b010

def MT_BU : BitVec 3 := 0b100

def MT_HU : BitVec 3 := 0b101

def MT_WU : BitVec 3 := 0b110

def VM_AMO_SWAP : BitVec 6 := 0b000100

def VM_AMO_ADD : BitVec 6 := 0b001000

def VM_AMO_XOR : BitVec 6 := 0b001001

def VM_AMO_OR : BitVec 6 := 0b001010

def VM_AMO_AND : BitVec 6 := 0b001011

def VM_AMO_MIN : BitVec 6 := 0b001100

def VM_AMO_MAX : BitVec 6 := 0b001101

def VM_AMO_MINU : BitVec 6 := 0b001110

def VM_AMO_MAXU : BitVec 6 := 0b001111

end VMUFn

open VMUFn

/-- `I_ADD` and so on, in the order of their codes. -/
inductive VIUOp
  | add | sll | slt | sltu | xor | srl | sra | or | and | sub | idx | mov1 | mov2 | fsj |
    fsjn | fsjx
  | feq | flt | fle | fmin | fmax | movz | movn

def VIUOp.code (op : VIUOp) : BitVec 5 := BitVec.ofNat 5 op.ctorIdx

/-- `A0_M` and so on, in the order of their codes. -/
inductive VAU0Op
  | m | mh | mhsu | mhu

def VAU0Op.code (op : VAU0Op) : BitVec 2 := BitVec.ofNat 2 op.ctorIdx

/-- `A1_ADD` and so on. -/
inductive VAU1Op
  | add | sub | mul | madd | msub | nmsub | nmadd

/-- The upper bit is for three operands. -/
def VAU1Op.code : VAU1Op → BitVec 3
  | add => 0
  | sub => 1
  | mul => 2
  | madd => 4
  | msub => 5
  | nmsub => 6
  | nmadd => 7

/-- `A2_CLTF` and so on, in the order of their codes. -/
inductive VAU2Op
  | cltf | clutf | cwtf | cwutf | mxtf | cftl | cftlu | cftw | cftwu | mftx | cdts | cstd

def VAU2Op.code (op : VAU2Op) : BitVec 4 := BitVec.ofNat 4 op.ctorIdx

structure VIUFn where
  t0 : BitVec 2
  t1 : BitVec 2
  dw : BitVec 1
  fp : BitVec 2
  op : BitVec 5
  deriving DecidableEq

structure VAU0Fn where
  dw : BitVec 1
  op : BitVec 2
  deriving DecidableEq

/-- A function without its rounding mode. -/
structure VAU1Col where
  fp : BitVec 2
  op : BitVec 3
  deriving DecidableEq

structure VAU2Col where
  fp : BitVec 2
  op : BitVec 4
  deriving DecidableEq

/-! ### Commands -/

/-- What a command is for: the floating-point format of an immediate is given if it is packed. -/
inductive TVECUnit
  | none (vcfg vsetvl vf : Bool)
  | viu (t0 t1 : BitVec 2) (fimm : Option (BitVec 2))
  | vmu (typ : BitVec 3) (op : BitVec 6)

/-- One line of the table. -/
structure TVECRow where
  vd : RCol
  vt : RCol
  unit : TVECUnit
  deqImm1 : Bool
  deqImm2 : Bool
  deqCnt : Bool

namespace TVECRow

def setting (vcfg vsetvl vf : Bool) : TVECRow :=
  ⟨.R_, .R_, .none vcfg vsetvl vf, true, false, false⟩

/-- From a register. -/
def vmove (r : RCol) : TVECRow := ⟨r, r, .viu MR M0 none, false, false, true⟩

/-- From the immediate. -/
def smove (r : RCol) (fimm : Option (BitVec 2)) : TVECRow :=
  ⟨r, .R_, .viu M0 MI fimm, true, false, true⟩

def load (r : RCol) (typ : BitVec 3) (strided : Bool) : TVECRow :=
  ⟨r, .R_, .vmu typ VM_VLD, true, strided, true⟩

def store (r : RCol) (typ : BitVec 3) (strided : Bool) : TVECRow :=
  ⟨.R_, r, .vmu typ VM_VST, true, strided, true⟩

/-- `TVECDecodeTable.default`. -/
def default : TVECRow := ⟨.R_, .R_, .none false false false, false, false, false⟩

/-- `TVECDecodeTable.table`. -/
def table : List (BitVec 8 × TVECRow) := [
   -- CMD_VSETCFG, CMD_VSETVL, CMD_VF
   (0b00000000, setting true true false),
   (0b00000010, setting false true false),
   (0b00000011, setting false false true),
   -- CMD_VMVV
   (0b01000000, vmove .RX),
   -- CMD_VMSV
   (0b01001000, smove .RX none),
   -- CMD_VFMVV
   (0b01000001, vmove .RF),
   -- CMD_VFMSV_S, CMD_VFMSV_D
   (0b01001001, smove .RF (some FPS)),
   (0b01011001, smove .RF (some FPD)),
   -- CMD_VLD, CMD_VLW, CMD_VLWU, CMD_VLH, CMD_VLHU, CMD_VLB, CMD_VLBU
   (0b10000011, load .RX MT_D false),
   (0b10000010, load .RX MT_W false),
   (0b10000110, load .RX MT_WU false),
   (0b10000001, load .RX MT_H false),
   (0b10000101, load .RX MT_HU false),
   (0b10000000, load .RX MT_B false),
   (0b10000100, load .RX MT_BU false),
   -- CMD_VSD, CMD_VSW, CMD_VSH, CMD_VSB
   (0b10010011, store .RX MT_D false),
   (0b10010010, store .RX MT_W false),
   (0b10010001, store .RX MT_H false),
   (0b10010000, store .RX MT_B false),
   -- CMD_VFLD, CMD_VFLW
   (0b10001011, load .RF MT_D false),
   (0b10001010, load .RF MT_W false),
   -- CMD_VFSD, CMD_VFSW
   (0b10011011, store .RF MT_D false),
   (0b10011010, store .RF MT_W false),
   -- CMD_VLSTD, CMD_VLSTW, CMD_VLSTWU, CMD_VLSTH, CMD_VLSTHU, CMD_VLSTB, CMD_VLSTBU
   (0b10100011, load .RX MT_D true),
   (0b10100010, load .RX MT_W true),
   (0b10100110, load .RX MT_WU true),
   (0b10100001, load .RX MT_H true),
   (0b10100101, load .RX MT_HU true),
   (0b10100000, load .RX MT_B true),
   (0b10100100, load .RX MT_BU true),
   -- CMD_VSSTD, CMD_VSSTW, CMD_VSSTH, CMD_VSSTB
   (0b10110011, store .RX MT_D true),
   (0b10110010, store .RX MT_W true),
   (0b10110001, store .RX MT_H true),
   (0b10110000, store .RX MT_B true),
   -- CMD_VFLSTD, CMD_VFLSTW
   (0b10101011, load .RF MT_D true),
   (0b10101010, load .RF MT_W true),
   -- CMD_VFSSTD, CMD_VFSSTW
   (0b10111011, store .RF MT_D true),
   (0b10111010, store .RF MT_W true)]

/-- The line of a command. -/
def find (cmd : BitVec 8) : TVECRow := (table.lookup cmd).getD default

end TVECRow

/-- What is not given by a row. -/
structure TVECDontCares where
  vdFp : Bool
  vtFp : Bool
  fimmSel : BitVec 2
  vmuType : BitVec 3
  vmuOp : BitVec 6

structure TVECCtrl where
  vd : RInfo
  vt : RInfo
  viuVal : Bool
  viuT0 : BitVec 2
  viuT1 : BitVec 2
  viuFimmVal : Bool
  viuFimmSel : BitVec 2
  vmuVal : Bool
  vmuType : BitVec 3
  vmuOp : BitVec 6
  deqImm1 : Bool
  deqImm2 : Bool
  deqCnt : Bool
  decodeVcfg : Bool
  decodeVsetvl : Bool
  decodeVf : Bool

/-- The signals of a line. -/
def TVECRow.ctrl (r : TVECRow) (x : TVECDontCares) : TVECCtrl :=
  let base : TVECCtrl :=
    { vd := r.vd.info x.vdFp
      vt := r.vt.info x.vtFp
      viuVal := false
      viuT0 := M0
      viuT1 := M0
      viuFimmVal := false
      viuFimmSel := x.fimmSel
      vmuVal := false
      vmuType := x.vmuType
      vmuOp := x.vmuOp
      deqImm1 := r.deqImm1
      deqImm2 := r.deqImm2
      deqCnt := r.deqCnt
      decodeVcfg := false
      decodeVsetvl := false
      decodeVf := false }
  match r.unit with
  | .none vcfg vsetvl vf => { base with decodeVcfg := vcfg, decodeVsetvl := vsetvl, decodeVf := vf }
  | .viu t0 t1 none => { base with viuVal := true, viuT0 := t0, viuT1 := t1 }
  | .viu t0 t1 (some sel) =>
    { base with viuVal := true, viuT0 := t0, viuT1 := t1, viuFimmVal := true, viuFimmSel := sel }
  | .vmu typ op => { base with vmuVal := true, vmuType := typ, vmuOp := op }

def TVECCtrl.decode (x : BitVec 8 → TVECDontCares) (cmd : BitVec 8) : TVECCtrl :=
  (TVECRow.find cmd).ctrl (x cmd)

/-! ### Instructions -/

/-- The bits that an instruction is known by. -/
structure InstCode where
  mask : BitVec 32
  value : BitVec 32

def InstCode.matches (c : InstCode) (inst : BitVec 32) : Bool := inst &&& c.mask == c.value

/-- What an instruction is for. -/
inductive VTUnit
  | none
  | viu (t0 t1 : BitVec 2) (dw : BitVec 1) (fp : Option (BitVec 2)) (op : VIUOp)
  | vau0 (dw : BitVec 1) (op : VAU0Op)
  | vau1 (fp : BitVec 2) (op : VAU1Op)
  | vau2 (fp : BitVec 2) (op : VAU2Op)
  | vmu (typ : BitVec 3) (op : BitVec 6)
  | stop

/-- One line of the table. -/
structure VTRow where
  vd : RCol
  vs : RCol
  vt : RCol
  vr : RCol
  imm : Option (BitVec 2)
  unit : VTUnit

namespace VTRow

def utidx : VTRow := ⟨.RX, .R_, .R_, .R_, none, .viu M0 M0 DW64 none .idx⟩

def lui : VTRow := ⟨.RX, .R_, .R_, .R_, some IMM_U, .viu M0 MI DW64 none .mov2⟩

def itype (dw : BitVec 1) (op : VIUOp) : VTRow :=
  ⟨.RX, .RX, .R_, .R_, some IMM_I, .viu MR MI dw none op⟩

def rtype (dw : BitVec 1) (op : VIUOp) : VTRow :=
  ⟨.RX, .RX, .RX, .R_, none, .viu ML MR dw none op⟩

/-- A floating-point register, by the value of an integer register. -/
def fmove (op : VIUOp) : VTRow := ⟨.RF, .RX, .RF, .R_, none, .viu ML MR DW64 none op⟩

def ftype (vd : RCol) (fp : BitVec 2) (op : VIUOp) : VTRow :=
  ⟨vd, .RF, .RF, .R_, none, .viu ML MR DW64 (some fp) op⟩

def mul (dw : BitVec 1) (op : VAU0Op) : VTRow := ⟨.RX, .RX, .RX, .R_, none, .vau0 dw op⟩

def fma (vr : RCol) (fp : BitVec 2) (op : VAU1Op) : VTRow := ⟨.RF, .RF, .RF, vr, none, .vau1 fp op⟩

def fconv (vd vs : RCol) (fp : BitVec 2) (op : VAU2Op) : VTRow :=
  ⟨vd, vs, .R_, .R_, none, .vau2 fp op⟩

def load (vd : RCol) (typ : BitVec 3) : VTRow := ⟨vd, .RX, .R_, .R_, some IMM_I, .vmu typ VM_ULD⟩

def store (vt : RCol) (typ : BitVec 3) : VTRow := ⟨.R_, .RX, vt, .R_, some IMM_S, .vmu typ VM_UST⟩

def amo (typ : BitVec 3) (op : BitVec 6) : VTRow := ⟨.RX, .RX, .RX, .R_, some IMM_0, .vmu typ op⟩

def stop : VTRow := ⟨.R_, .R_, .R_, .R_, none, .stop⟩

/-- `VTDecodeTable.default`. -/
def default : VTRow := ⟨.R_, .R_, .R_, .R_, none, .none⟩

/-- `VTDecodeTable.table`. -/
def table : List (InstCode × VTRow) := [
   -- UTIDX
   (⟨0xfffff07f, 0x00006077⟩, utidx),
   -- MOVZ, MOVN
   (⟨0xfe00707f, 0x00007077⟩, rtype DW64 .movz),
   (⟨0xfe00707f, 0x02007077⟩, rtype DW64 .movn),
   -- FMOVZ, FMOVN
   (⟨0xfe00707f, 0x04007077⟩, fmove .movz),
   (⟨0xfe00707f, 0x06007077⟩, fmove .movn),
   -- LUI
   (⟨0x0000007f, 0x00000037⟩, lui),
   -- ADDI, SLLI, SLTI, SLTIU, XORI, SRLI, SRAI, ORI, ANDI
   (⟨0x0000707f, 0x00000013⟩, itype DW64 .add),
   (⟨0xfc00707f, 0x00001013⟩, itype DW64 .sll),
   (⟨0x0000707f, 0x00002013⟩, itype DW64 .slt),
   (⟨0x0000707f, 0x00003013⟩, itype DW64 .sltu),
   (⟨0x0000707f, 0x00004013⟩, itype DW64 .xor),
   (⟨0xfc00707f, 0x00005013⟩, itype DW64 .srl),
   (⟨0xfc00707f, 0x40005013⟩, itype DW64 .sra),
   (⟨0x0000707f, 0x00006013⟩, itype DW64 .or),
   (⟨0x0000707f, 0x00007013⟩, itype DW64 .and),
   -- ADD, SUB, SLL, SLT, SLTU, XOR, SRL, SRA, OR, AND
   (⟨0xfe00707f, 0x00000033⟩, rtype DW64 .add),
   (⟨0xfe00707f, 0x40000033⟩, rtype DW64 .sub),
   (⟨0xfe00707f, 0x00001033⟩, rtype DW64 .sll),
   (⟨0xfe00707f, 0x00002033⟩, rtype DW64 .slt),
   (⟨0xfe00707f, 0x00003033⟩, rtype DW64 .sltu),
   (⟨0xfe00707f, 0x00004033⟩, rtype DW64 .xor),
   (⟨0xfe00707f, 0x00005033⟩, rtype DW64 .srl),
   (⟨0xfe00707f, 0x40005033⟩, rtype DW64 .sra),
   (⟨0xfe00707f, 0x00006033⟩, rtype DW64 .or),
   (⟨0xfe00707f, 0x00007033⟩, rtype DW64 .and),
   -- ADDIW, SLLIW, SRLIW, SRAIW
   (⟨0x0000707f, 0x0000001b⟩, itype DW32 .add),
   (⟨0xfe00707f, 0x0000101b⟩, itype DW32 .sll),
   (⟨0xfe00707f, 0x0000501b⟩, itype DW32 .srl),
   (⟨0xfe00707f, 0x4000501b⟩, itype DW32 .sra),
   -- ADDW, SUBW, SLLW, SRLW, SRAW
   (⟨0xfe00707f, 0x0000003b⟩, rtype DW32 .add),
   (⟨0xfe00707f, 0x4000003b⟩, rtype DW32 .sub),
   (⟨0xfe00707f, 0x0000103b⟩, rtype DW32 .sll),
   (⟨0xfe00707f, 0x0000503b⟩, rtype DW32 .srl),
   (⟨0xfe00707f, 0x4000503b⟩, rtype DW32 .sra),
   -- FSGNJ_S, FSGNJN_S, FSGNJX_S, FEQ_S, FLT_S, FLE_S, FMIN_S, FMAX_S
   (⟨0xfe00707f, 0x20000053⟩, ftype .RF FPS .fsj),
   (⟨0xfe00707f, 0x20001053⟩, ftype .RF FPS .fsjn),
   (⟨0xfe00707f, 0x20002053⟩, ftype .RF FPS .fsjx),
   (⟨0xfe00707f, 0xa0002053⟩, ftype .RX FPS .feq),
   (⟨0xfe00707f, 0xa0001053⟩, ftype .RX FPS .flt),
   (⟨0xfe00707f, 0xa0000053⟩, ftype .RX FPS .fle),
   (⟨0xfe00707f, 0x28000053⟩, ftype .RF FPS .fmin),
   (⟨0xfe00707f, 0x28001053⟩, ftype .RF FPS .fmax),
   -- FSGNJ_D, FSGNJN_D, FSGNJX_D, FEQ_D, FLT_D, FLE_D, FMIN_D, FMAX_D
   (⟨0xfe00707f, 0x22000053⟩, ftype .RF FPD .fsj),
   (⟨0xfe00707f, 0x22001053⟩, ftype .RF FPD .fsjn),
   (⟨0xfe00707f, 0x22002053⟩, ftype .RF FPD .fsjx),
   (⟨0xfe00707f, 0xa2002053⟩, ftype .RX FPD .feq),
   (⟨0xfe00707f, 0xa2001053⟩, ftype .RX FPD .flt),
   (⟨0xfe00707f, 0xa2000053⟩, ftype .RX FPD .fle),
   (⟨0xfe00707f, 0x2a000053⟩, ftype .RF FPD .fmin),
   (⟨0xfe00707f, 0x2a001053⟩, ftype .RF FPD .fmax),
   -- MUL, MULH, MULHU, MULHSU
   (⟨0xfe00707f, 0x02000033⟩, mul DW64 .m),
   (⟨0xfe00707f, 0x02001033⟩, mul DW64 .mh),
   (⟨0xfe00707f, 0x02003033⟩, mul DW64 .mhu),
   (⟨0xfe00707f, 0x02002033⟩, mul DW64 .mhsu),
   -- MULW
   (⟨0xfe00707f, 0x0200003b⟩, mul DW32 .m),
   -- FADD_H, FSUB_H, FMUL_H
   (⟨0xfe00007f, 0x04000053⟩, fma .R_ FPH .add),
   (⟨0xfe00007f, 0x0c000053⟩, fma .R_ FPH .sub),
   (⟨0xfe00007f, 0x14000053⟩, fma .R_ FPH .mul),
   -- FADD_S, FSUB_S, FMUL_S, FMADD_S, FMSUB_S, FNMSUB_S, FNMADD_S
   (⟨0xfe00007f, 0x00000053⟩, fma .R_ FPS .add),
   (⟨0xfe00007f, 0x08000053⟩, fma .R_ FPS .sub),
   (⟨0xfe00007f, 0x10000053⟩, fma .R_ FPS .mul),
   (⟨0x0600007f, 0x00000043⟩, fma .RF FPS .madd),
   (⟨0x0600007f, 0x00000047⟩, fma .RF FPS .msub),
   (⟨0x0600007f, 0x0000004b⟩, fma .RF FPS .nmsub),
   (⟨0x0600007f, 0x0000004f⟩, fma .RF FPS .nmadd),
   -- FADD_D, FSUB_D, FMUL_D, FMADD_D, FMSUB_D, FNMSUB_D, FNMADD_D
   (⟨0xfe00007f, 0x02000053⟩, fma .R_ FPD .add),
   (⟨0xfe00007f, 0x0a000053⟩, fma .R_ FPD .sub),
   (⟨0xfe00007f, 0x12000053⟩, fma .R_ FPD .mul),
   (⟨0x0600007f, 0x02000043⟩, fma .RF FPD .madd),
   (⟨0x0600007f, 0x02000047⟩, fma .RF FPD .msub),
   (⟨0x0600007f, 0x0200004b⟩, fma .RF FPD .nmsub),
   (⟨0x0600007f, 0x0200004f⟩, fma .RF FPD .nmadd),
   -- FCVT_S_D
   (⟨0xfff0007f, 0x40100053⟩, fconv .RF .RF FPS .cdts),
   -- FCVT_D_S
   (⟨0xfff0007f, 0x42000053⟩, fconv .RF .RF FPD .cstd),
   -- FCVT_L_S, FCVT_LU_S, FCVT_W_S, FCVT_WU_S, FCVT_S_L, FCVT_S_LU, FCVT_S_W, FCVT_S_WU, FMV_S_X,
   -- FMV_X_S
   (⟨0xfff0007f, 0xc0200053⟩, fconv .RX .RF FPS .cftl),
   (⟨0xfff0007f, 0xc0300053⟩, fconv .RX .RF FPS .cftlu),
   (⟨0xfff0007f, 0xc0000053⟩, fconv .RX .RF FPS .cftw),
   (⟨0xfff0007f, 0xc0100053⟩, fconv .RX .RF FPS .cftwu),
   (⟨0xfff0007f, 0xd0200053⟩, fconv .RF .RX FPS .cltf),
   (⟨0xfff0007f, 0xd0300053⟩, fconv .RF .RX FPS .clutf),
   (⟨0xfff0007f, 0xd0000053⟩, fconv .RF .RX FPS .cwtf),
   (⟨0xfff0007f, 0xd0100053⟩, fconv .RF .RX FPS .cwutf),
   (⟨0xfff0707f, 0xf0000053⟩, fconv .RF .RX FPS .mxtf),
   (⟨0xfff0707f, 0xe0000053⟩, fconv .RX .RF FPS .mftx),
   -- FCVT_L_D, FCVT_LU_D, FCVT_W_D, FCVT_WU_D, FCVT_D_L, FCVT_D_LU, FCVT_D_W, FCVT_D_WU, FMV_D_X,
   -- FMV_X_D
   (⟨0xfff0007f, 0xc2200053⟩, fconv .RX .RF FPD .cftl),
   (⟨0xfff0007f, 0xc2300053⟩, fconv .RX .RF FPD .cftlu),
   (⟨0xfff0007f, 0xc2000053⟩, fconv .RX .RF FPD .cftw),
   (⟨0xfff0007f, 0xc2100053⟩, fconv .RX .RF FPD .cftwu),
   (⟨0xfff0007f, 0xd2200053⟩, fconv .RF .RX FPD .cltf),
   (⟨0xfff0007f, 0xd2300053⟩, fconv .RF .RX FPD .clutf),
   (⟨0xfff0007f, 0xd2000053⟩, fconv .RF .RX FPD .cwtf),
   (⟨0xfff0007f, 0xd2100053⟩, fconv .RF .RX FPD .cwutf),
   (⟨0xfff0707f, 0xf2000053⟩, fconv .RF .RX FPD .mxtf),
   (⟨0xfff0707f, 0xe2000053⟩, fconv .RX .RF FPD .mftx),
   -- LB, LH, LW, LD, LBU, LHU, LWU
   (⟨0x0000707f, 0x00000003⟩, load .RX MT_B),
   (⟨0x0000707f, 0x00001003⟩, load .RX MT_H),
   (⟨0x0000707f, 0x00002003⟩, load .RX MT_W),
   (⟨0x0000707f, 0x00003003⟩, load .RX MT_D),
   (⟨0x0000707f, 0x00004003⟩, load .RX MT_BU),
   (⟨0x0000707f, 0x00005003⟩, load .RX MT_HU),
   (⟨0x0000707f, 0x00006003⟩, load .RX MT_WU),
   -- SB, SH, SW, SD
   (⟨0x0000707f, 0x00000023⟩, store .RX MT_B),
   (⟨0x0000707f, 0x00001023⟩, store .RX MT_H),
   (⟨0x0000707f, 0x00002023⟩, store .RX MT_W),
   (⟨0x0000707f, 0x00003023⟩, store .RX MT_D),
   -- AMOADD_W, AMOXOR_W, AMOOR_W, AMOAND_W, AMOMIN_W, AMOMAX_W, AMOMINU_W, AMOMAXU_W, AMOSWAP_W
   (⟨0xf800707f, 0x0000202f⟩, amo MT_W VM_AMO_ADD),
   (⟨0xf800707f, 0x2000202f⟩, amo MT_W VM_AMO_XOR),
   (⟨0xf800707f, 0x4000202f⟩, amo MT_W VM_AMO_OR),
   (⟨0xf800707f, 0x6000202f⟩, amo MT_W VM_AMO_AND),
   (⟨0xf800707f, 0x8000202f⟩, amo MT_W VM_AMO_MIN),
   (⟨0xf800707f, 0xa000202f⟩, amo MT_W VM_AMO_MAX),
   (⟨0xf800707f, 0xc000202f⟩, amo MT_W VM_AMO_MINU),
   (⟨0xf800707f, 0xe000202f⟩, amo MT_W VM_AMO_MAXU),
   (⟨0xf800707f, 0x0800202f⟩, amo MT_W VM_AMO_SWAP),
   -- AMOADD_D, AMOXOR_D, AMOOR_D, AMOAND_D, AMOMIN_D, AMOMAX_D, AMOMINU_D, AMOMAXU_D, AMOSWAP_D
   (⟨0xf800707f, 0x0000302f⟩, amo MT_D VM_AMO_ADD),
   (⟨0xf800707f, 0x2000302f⟩, amo MT_D VM_AMO_XOR),
   (⟨0xf800707f, 0x4000302f⟩, amo MT_D VM_AMO_OR),
   (⟨0xf800707f, 0x6000302f⟩, amo MT_D VM_AMO_AND),
   (⟨0xf800707f, 0x8000302f⟩, amo MT_D VM_AMO_MIN),
   (⟨0xf800707f, 0xa000302f⟩, amo MT_D VM_AMO_MAX),
   (⟨0xf800707f, 0xc000302f⟩, amo MT_D VM_AMO_MINU),
   (⟨0xf800707f, 0xe000302f⟩, amo MT_D VM_AMO_MAXU),
   (⟨0xf800707f, 0x0800302f⟩, amo MT_D VM_AMO_SWAP),
   -- FLH, FLW, FLD
   (⟨0x0000707f, 0x00001007⟩, load .RF MT_H),
   (⟨0x0000707f, 0x00002007⟩, load .RF MT_W),
   (⟨0x0000707f, 0x00003007⟩, load .RF MT_D),
   -- FSH, FSW, FSD
   (⟨0x0000707f, 0x00001027⟩, store .RF MT_H),
   (⟨0x0000707f, 0x00002027⟩, store .RF MT_W),
   (⟨0x0000707f, 0x00003027⟩, store .RF MT_D),
   -- STOP
   (⟨0xffffffff, 0x00005077⟩, stop)]

/-- The line of an instruction; the codes of two lines never both match. -/
def find (inst : BitVec 32) : VTRow :=
  match table.find? fun r => r.1.matches inst with
  | some r => r.2
  | none => default

end VTRow

/-- What is not given by a row. -/
structure VTDontCares where
  vdFp : Bool
  vsFp : Bool
  vtFp : Bool
  vrFp : Bool
  imm : BitVec 2
  viuDw : BitVec 1
  viuFp : BitVec 2
  viuOp : BitVec 5
  vau0 : VAU0Fn
  vau1 : VAU1Col
  vau2 : VAU2Col
  vmuType : BitVec 3
  vmuOp : BitVec 6

structure VTCtrl where
  vd : RInfo
  vs : RInfo
  vt : RInfo
  vr : RInfo
  imm : BitVec 2
  viuVal : Bool
  viu : VIUFn
  vau0Val : Bool
  vau0 : VAU0Fn
  vau1Val : Bool
  vau1 : VAU1Col
  vau2Val : Bool
  vau2 : VAU2Col
  vmuVal : Bool
  vmuType : BitVec 3
  vmuOp : BitVec 6
  decodeStop : Bool

/-- The signals of a line. -/
def VTRow.ctrl (r : VTRow) (x : VTDontCares) : VTCtrl :=
  let base : VTCtrl :=
    { vd := r.vd.info x.vdFp
      vs := r.vs.info x.vsFp
      vt := r.vt.info x.vtFp
      vr := r.vr.info x.vrFp
      imm := r.imm.getD x.imm
      viuVal := false
      viu := ⟨M0, M0, x.viuDw, x.viuFp, x.viuOp⟩
      vau0Val := false
      vau0 := x.vau0
      vau1Val := false
      vau1 := x.vau1
      vau2Val := false
      vau2 := x.vau2
      vmuVal := false
      vmuType := x.vmuType
      vmuOp := x.vmuOp
      decodeStop := false }
  match r.unit with
  | .none => base
  | .viu t0 t1 dw fp op =>
    { base with viuVal := true, viu := ⟨t0, t1, dw, fp.getD x.viuFp, op.code⟩ }
  | .vau0 dw op => { base with vau0Val := true, vau0 := ⟨dw, op.code⟩ }
  | .vau1 fp op => { base with vau1Val := true, vau1 := ⟨fp, op.code⟩ }
  | .vau2 fp op => { base with vau2Val := true, vau2 := ⟨fp, op.code⟩ }
  | .vmu typ op => { base with vmuVal := true, vmuType := typ, vmuOp := op }
  | .stop => { base with decodeStop := true }

def VTCtrl.decode (x : BitVec 32 → VTDontCares) (inst : BitVec 32) : VTCtrl :=
  (VTRow.find inst).ctrl (x inst)

end Hwacha

end RiscvSoc
