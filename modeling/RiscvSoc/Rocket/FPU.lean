import Mathlib.Data.Nat.Bitwise
import RiscvSoc.Lib.Bits
import RiscvSoc.Lib.Machine
import RiscvSoc.Lib.Pipe

/-!
# The floating-point unit

The pipeline of `FPU` from the execute stage on, and the four units that write the register file.
They have latencies of their own. An instruction that leaves the memory stage sets a bit of the
shift register `wen`, as far from its end as the unit still needs, and beside it goes a record of
the unit and the destination. What falls out at the end tells the register file which unit to listen
to.

Whether the place in the shift register will be taken is found out one cycle early, while the
instruction is in the execute stage: from the bits on their way, and from the instruction ahead of
it, which has not set its bit yet. That one may be killed, so the prediction errs to one side.

What the units compute is a parameter.
-/

namespace RiscvSoc

/-! ### Instructions -/

/-- A command as the decode table gives it: the bits that matter, and their values. -/
structure FPUCmd where
  care : BitVec 5
  value : BitVec 5
  deriving DecidableEq

namespace FPUCmd

def add : FPUCmd := ⟨0b10011, 0b00000⟩

def sub : FPUCmd := ⟨0b10011, 0b00001⟩

def mul : FPUCmd := ⟨0b10011, 0b00010⟩

def madd : FPUCmd := ⟨0b10011, 0b10000⟩

def msub : FPUCmd := ⟨0b10011, 0b10001⟩

def nmsub : FPUCmd := ⟨0b10011, 0b10010⟩

def nmadd : FPUCmd := ⟨0b10011, 0b10011⟩

def sgnj : FPUCmd := ⟨0b00101, 0b00100⟩

def minmax : FPUCmd := ⟨0b01101, 0b00101⟩

def cvtFF : FPUCmd := ⟨0b00100, 0b00000⟩

def cvtIF : FPUCmd := ⟨0b01100, 0b01000⟩

def cmp : FPUCmd := ⟨0b01100, 0b00100⟩

def mvXF : FPUCmd := ⟨0b01100, 0b01100⟩

def cvtFI : FPUCmd := ⟨0b00100, 0b00000⟩

def mvFX : FPUCmd := ⟨0b00100, 0b00100⟩

def any : FPUCmd := ⟨0, 0⟩

/-- `cmd === p`. -/
def is (p : FPUCmd) (cmd : BitVec 5) : Bool := cmd &&& p.care == p.value

end FPUCmd

/-- The control signals, with a command or with what the table says about it. -/
structure FPUCtrlSigs (Cmd : Type) where
  cmd : Cmd
  ldst : Bool
  wen : Bool
  ren1 : Bool
  ren2 : Bool
  ren3 : Bool
  swap23 : Bool
  single : Bool
  fromint : Bool
  toint : Bool
  fastpipe : Bool
  fma : Bool
  round : Bool

inductive FPInst
  | flw | fld | fsw | fsd | fmvSX | fmvDX | fcvtSW | fcvtSWU | fcvtSL | fcvtSLU | fcvtDW
  | fcvtDWU | fcvtDL | fcvtDLU | fmvXS | fmvXD | fclassS | fclassD | fcvtWS | fcvtWUS | fcvtLS
  | fcvtLUS | fcvtWD | fcvtWUD | fcvtLD | fcvtLUD | fcvtSD | fcvtDS | feqS | fltS | fleS | feqD
  | fltD | fleD | fsgnjS | fsgnjnS | fsgnjxS | fsgnjD | fsgnjnD | fsgnjxD | fminS | fmaxS
  | fminD | fmaxD | faddS | fsubS | fmulS | faddD | fsubD | fmulD | fmaddS | fmsubS | fnmaddS
  | fnmsubS | fmaddD | fmsubD | fnmaddD | fnmsubD

namespace FPInst

/-- A line of the table: the flags from `ldst` to `round`. -/
def ofFlags (cmd : FPUCmd) (flags : ℕ) : FPUCtrlSigs FPUCmd where
  cmd := cmd
  ldst := flags.testBit 11
  wen := flags.testBit 10
  ren1 := flags.testBit 9
  ren2 := flags.testBit 8
  ren3 := flags.testBit 7
  swap23 := flags.testBit 6
  single := flags.testBit 5
  fromint := flags.testBit 4
  toint := flags.testBit 3
  fastpipe := flags.testBit 2
  fma := flags.testBit 1
  round := flags.testBit 0

/-- `FPUDecoder`. -/
def row : FPInst → FPUCtrlSigs FPUCmd
  | .flw => ofFlags .any 0b110000100000
  | .fld => ofFlags .any 0b110000000000
  | .fsw => ofFlags .mvXF 0b100100101000
  | .fsd => ofFlags .mvXF 0b100100001000
  | .fmvSX => ofFlags .mvFX 0b010000110001
  | .fmvDX => ofFlags .mvFX 0b010000010001
  | .fcvtSW => ofFlags .cvtFI 0b010000110001
  | .fcvtSWU => ofFlags .cvtFI 0b010000110001
  | .fcvtSL => ofFlags .cvtFI 0b010000110001
  | .fcvtSLU => ofFlags .cvtFI 0b010000110001
  | .fcvtDW => ofFlags .cvtFI 0b010000010001
  | .fcvtDWU => ofFlags .cvtFI 0b010000010001
  | .fcvtDL => ofFlags .cvtFI 0b010000010001
  | .fcvtDLU => ofFlags .cvtFI 0b010000010001
  | .fmvXS => ofFlags .mvXF 0b001000101001
  | .fmvXD => ofFlags .mvXF 0b001000001001
  | .fclassS => ofFlags .mvXF 0b001000101001
  | .fclassD => ofFlags .mvXF 0b001000001001
  | .fcvtWS => ofFlags .cvtIF 0b001000101001
  | .fcvtWUS => ofFlags .cvtIF 0b001000101001
  | .fcvtLS => ofFlags .cvtIF 0b001000101001
  | .fcvtLUS => ofFlags .cvtIF 0b001000101001
  | .fcvtWD => ofFlags .cvtIF 0b001000001001
  | .fcvtWUD => ofFlags .cvtIF 0b001000001001
  | .fcvtLD => ofFlags .cvtIF 0b001000001001
  | .fcvtLUD => ofFlags .cvtIF 0b001000001001
  | .fcvtSD => ofFlags .cvtFF 0b011000100101
  | .fcvtDS => ofFlags .cvtFF 0b011000000101
  | .feqS => ofFlags .cmp 0b001100101000
  | .fltS => ofFlags .cmp 0b001100101000
  | .fleS => ofFlags .cmp 0b001100101000
  | .feqD => ofFlags .cmp 0b001100001000
  | .fltD => ofFlags .cmp 0b001100001000
  | .fleD => ofFlags .cmp 0b001100001000
  | .fsgnjS => ofFlags .sgnj 0b011100100100
  | .fsgnjnS => ofFlags .sgnj 0b011100100100
  | .fsgnjxS => ofFlags .sgnj 0b011100100100
  | .fsgnjD => ofFlags .sgnj 0b011100000100
  | .fsgnjnD => ofFlags .sgnj 0b011100000100
  | .fsgnjxD => ofFlags .sgnj 0b011100000100
  | .fminS => ofFlags .minmax 0b011100100100
  | .fmaxS => ofFlags .minmax 0b011100100100
  | .fminD => ofFlags .minmax 0b011100000100
  | .fmaxD => ofFlags .minmax 0b011100000100
  | .faddS => ofFlags .add 0b011101100011
  | .fsubS => ofFlags .sub 0b011101100011
  | .fmulS => ofFlags .mul 0b011100100011
  | .faddD => ofFlags .add 0b011101000011
  | .fsubD => ofFlags .sub 0b011101000011
  | .fmulD => ofFlags .mul 0b011100000011
  | .fmaddS => ofFlags .madd 0b011110100011
  | .fmsubS => ofFlags .msub 0b011110100011
  | .fnmaddS => ofFlags .nmadd 0b011110100011
  | .fnmsubS => ofFlags .nmsub 0b011110100011
  | .fmaddD => ofFlags .madd 0b011110000011
  | .fmsubD => ofFlags .msub 0b011110000011
  | .fnmaddD => ofFlags .nmadd 0b011110000011
  | .fnmsubD => ofFlags .nmsub 0b011110000011

end FPInst

/-- What the decoder delivers for an instruction: the bits of the command that the table leaves open
are any. -/
structure FPDecoded where
  inst : FPInst
  cmd : BitVec 5
  cmd_is : inst.row.cmd.is cmd = true

def FPDecoded.sigs (d : FPDecoded) : FPUCtrlSigs (BitVec 5) := { d.inst.row with cmd := d.cmd }

/-! ### Units -/

/-- The latencies that the unit accepts. -/
structure FPUConfig where
  sfmaLatency : ℕ
  dfmaLatency : ℕ
  two_le_sfma : 2 ≤ sfmaLatency
  two_le_dfma : 2 ≤ dfmaLatency

/-- The units that write the register file. -/
inductive PipeId
  | fpmu
  | ifpu
  | sfma
  | dfma
  deriving DecidableEq

namespace PipeId

variable (conf : FPUConfig) {Cmd : Type} (c : FPUCtrlSigs Cmd)

def latency : PipeId → ℕ
  | fpmu => 2
  | ifpu => 3
  | sfma => conf.sfmaLatency
  | dfma => conf.dfmaLatency

/-- The instructions a unit is for. -/
def cond : PipeId → Bool
  | fpmu => c.fastpipe
  | ifpu => c.fromint
  | sfma => c.fma && c.single
  | dfma => c.fma && !c.single

/-- `pipes`. -/
def all : List PipeId := [fpmu, ifpu, sfma, dfma]

/-- The place in `pipes`. -/
def index : PipeId → ℕ
  | fpmu => 0
  | ifpu => 1
  | sfma => 2
  | dfma => 3

/-- Bits that are set by the units an instruction is for. -/
def orOf (f : PipeId → ℕ) : ℕ := (all.map fun p => if p.cond c then f p else 0).foldr (· ||| ·) 0

def latencyMask (offset : ℕ) : ℕ := orOf c fun p => 2 ^ (p.latency conf - offset)

def pipeid : ℕ := orOf c index

def maxLatency : ℕ := (all.map fun p => p.latency conf).foldr max 0

end PipeId

structure FPInput where
  sigs : FPUCtrlSigs (BitVec 5)
  rm : BitVec 3
  typ : BitVec 2
  in1 : BitVec 65
  in2 : BitVec 65
  in3 : BitVec 65

structure FPResult where
  data : BitVec 65
  exc : BitVec 5
  deriving DecidableEq

/-- What the units compute. -/
structure FPUUnits where
  /-- `lt` of `FPToInt`. -/
  lt : FPInput → Bool
  ifpu : FPInput → FPResult
  sfma : FPInput → FPResult
  dfma : FPInput → FPResult
  /-- The three branches of `FPToFP`. -/
  cvtFF : FPInput → FPResult
  sgnj : FPInput → FPResult
  minmax : FPInput → Bool → FPResult

/-- The unit's result; `FPToFP` asks `FPToInt` which operand is less. -/
def FPUUnits.result (u : FPUUnits) (lt : Bool) (x : FPInput) : PipeId → FPResult
  | .fpmu =>
    if FPUCmd.cvtFF.is x.sigs.cmd then u.cvtFF x
    else if FPUCmd.sgnj.is x.sigs.cmd then u.sgnj x
    else u.minmax x lt
  | .ifpu => u.ifpu x
  | .sfma => u.sfma x
  | .dfma => u.dfma x

/-! ### The pipeline -/

structure FPUState where
  exRegValid : Bool
  exRegInst : BitVec 32
  exCtrl : FPUCtrlSigs (BitVec 5)
  memRegValid : Bool
  memRegInst : BitVec 32
  memCtrl : FPUCtrlSigs (BitVec 5)
  /-- The operands in `FPToInt`. -/
  fpiu : FPInput
  /-- The first register of each unit, and the registers of its `Pipe`. -/
  unitIn : PipeId → ValidIO FPInput
  unitPipe : PipeId → ℕ → ValidIO FPResult
  wen : ℕ
  winfo : ℕ → ℕ
  writePortBusy : Bool

/-- The inputs of a cycle. The operands are those of the instruction in the execute stage. -/
structure FPUIn where
  valid : Bool
  inst : BitVec 32
  decoded : FPDecoded
  killx : Bool
  killm : Bool
  fcsrRm : BitVec 3
  rs1 : BitVec 65
  rs2 : BitVec 65
  rs3 : BitVec 65
  fromintData : BitVec 65

/-- A write to the register file, with the flags that go to the control register. -/
structure FPWrite where
  addr : ℕ
  result : FPResult
  deriving DecidableEq

namespace FPUState

variable (conf : FPUConfig) (u : FPUUnits) (s : FPUState) (i : FPUIn)

def exRm : BitVec 3 :=
  if s.exRegInst.extractLsb' 12 3 = 7 then i.fcsrRm else s.exRegInst.extractLsb' 12 3

def req : FPInput where
  sigs := s.exCtrl
  rm := s.exRm i
  typ := s.exRegInst.extractLsb' 20 2
  in1 := i.rs1
  in2 := i.rs2
  in3 := i.rs3

/-- `IntToFP` has an operand of its own. -/
def unitReq : PipeId → FPInput
  | .fpmu => s.req i
  | .ifpu => { s.req i with in1 := i.fromintData }
  | .sfma => s.req i
  | .dfma => s.req i

def killm : Bool := i.killm || s.writePortBusy

def memWen : Bool := s.memRegValid && (s.memCtrl.fma || s.memCtrl.fastpipe || s.memCtrl.fromint)

def memLatencyMask : ℕ := PipeId.latencyMask conf s.memCtrl 2

/-- What `write_port_busy` is loaded with. -/
def portConflict : Bool :=
  s.memWen && decide (s.memLatencyMask conf &&& PipeId.latencyMask conf s.exCtrl 1 ≠ 0) ||
    decide (s.wen &&& PipeId.latencyMask conf s.exCtrl 0 ≠ 0)

def rd (inst : BitVec 32) : ℕ := (inst.extractLsb' 7 5).toNat

def memWinfo : ℕ := Bits.cat (PipeId.pipeid s.memCtrl) 5 (rd s.memRegInst)

def nextWen : ℕ :=
  if s.memWen && !s.killm i then
    (s.wen >>> 1 ||| s.memLatencyMask conf) % 2 ^ (PipeId.maxLatency conf - 1)
  else s.wen >>> 1

def nextWinfo (k : ℕ) : ℕ :=
  if s.memWen && !s.writePortBusy && (s.memLatencyMask conf).testBit k then s.memWinfo
  else if decide (k < PipeId.maxLatency conf - 2) && s.wen.testBit (k + 1) then s.winfo (k + 1)
  else s.winfo k

def next : FPUState where
  exRegValid := i.valid
  exRegInst := if i.valid then i.inst else s.exRegInst
  exCtrl := if i.valid then i.decoded.sigs else s.exCtrl
  memRegValid := s.exRegValid && !i.killx
  memRegInst := if s.exRegValid then s.exRegInst else s.memRegInst
  memCtrl := if s.exRegValid then s.exCtrl else s.memCtrl
  fpiu :=
    if s.exRegValid && (s.exCtrl.toint || FPUCmd.minmax.is s.exCtrl.cmd) then s.req i else s.fpiu
  unitIn p := (s.unitIn p).load ⟨s.exRegValid && p.cond s.exCtrl, s.unitReq i p⟩
  unitPipe p :=
    Pipe.next ⟨(s.unitIn p).valid, u.result (u.lt s.fpiu) (s.unitIn p).bits p⟩ (s.unitPipe p)
  wen := s.nextWen conf i
  winfo := s.nextWinfo conf
  writePortBusy := if s.exRegValid then s.portConflict conf else s.writePortBusy

/-- Nothing is on its way. -/
def Idle : Prop := s.exRegValid = false ∧ s.memRegValid = false ∧ s.wen = 0

def waddr : ℕ := s.winfo 0 % 2 ^ 5

def wsrc : ℕ := s.winfo 0 / 2 ^ 5

/-- `io.out` of a unit. -/
def unitOut (p : PipeId) : FPResult := (s.unitPipe p (p.latency conf - 2)).bits

/-- A single-precision result gets ones in front; the register file takes as many bits as it has. -/
def wdata (p : PipeId) (r : FPResult) : FPResult :=
  match p with
  | .fpmu => r
  | .ifpu => r
  | .sfma => { r with data := (BitVec.allOnes 32 ++ r.data).setWidth 65 }
  | .dfma => r

/-- What is written to the register file. -/
def resultPort : Option FPWrite :=
  if s.wen.testBit 0 then
    PipeId.all[s.wsrc]?.map fun p => ⟨s.waddr, wdata p (s.unitOut conf p)⟩
  else none

end FPUState

/-- The unit, with arbitrary contents of the registers that are not reset. -/
def FPU.machine (conf : FPUConfig) (u : FPUUnits) : Machine FPUState FPUIn :=
  Machine.clocked FPUState.Idle (FPUState.next conf u)

end RiscvSoc
