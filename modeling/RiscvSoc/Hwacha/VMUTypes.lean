import RiscvSoc.Lib.Encoder
import RiscvSoc.Lib.Queue

/-!
# The operations of the vector memory unit

An operation of the vector memory unit is a memory command of the scalar core and one bit more,
which tells the operations of a whole vector (`tvec`) from those of the microthreads.
-/

namespace RiscvSoc

namespace Hwacha

structure VMUFn where
  op : BitVec 6
  typ : BitVec 3
  deriving DecidableEq

namespace VMUFn

def M_XRD : BitVec 5 := 0b00000

def M_XWR : BitVec 5 := 0b00001

def VM_VLD : BitVec 6 := 0b100000

def VM_VST : BitVec 6 := 0b100001

def VM_ULD : BitVec 6 := 0b000000

def VM_UST : BitVec 6 := 0b000001

/-- `MT_D`. -/
def MT_D : BitVec 3 := 0b011

/-- `is_mcmd_amo`. -/
def isAMO (cmd : BitVec 5) : Bool := cmd.getLsbD 3 || cmd == 0b00100

variable (fn : VMUFn)

/-- `vmu_op_tvec`. -/
def tvec : Bool := fn.op.getLsbD 5

/-- `vmu_op_mcmd`. -/
def mcmd : BitVec 5 := fn.op.setWidth 5

def amoreq : Bool := isAMO fn.mcmd

def lreq : Bool := fn.op == VM_VLD || fn.op == VM_ULD || fn.amoreq

def sreq : Bool := fn.op == VM_VST || fn.op == VM_UST

/-- No operation is a store and a load, or a store and an atomic. -/
theorem sreq_of_lreq (h : fn.lreq = true) : fn.sreq = false := by
  revert h
  rw [lreq, sreq, amoreq, mcmd]
  generalize fn.op = op
  revert op
  decide

theorem lreq_of_amoreq (h : fn.amoreq = true) : fn.lreq = true := by
  rw [lreq, h, Bool.or_true]

end VMUFn

structure VMUOp where
  vlen : BitVec 12
  fn : VMUFn
  deriving DecidableEq

structure VMUAddressOp where
  base : BitVec 64
  stride : BitVec 64
  deriving DecidableEq

structure VMUDecodedOp where
  tvec : Bool
  cmdRaw : BitVec 5
  cmdLd : Bool
  cmdSt : Bool
  cmdAmo : Bool
  typRaw : BitVec 3
  typB : Bool
  typH : Bool
  typW : Bool
  typD : Bool
  vlen : BitVec 12
  base : BitVec 64
  stride : BitVec 64

/-- `decode`, of a command and an address entry. -/
def VMUDecodedOp.decode (cmd : VMUOp) (addr : VMUAddressOp) : VMUDecodedOp where
  tvec := cmd.fn.tvec
  cmdRaw := cmd.fn.mcmd
  cmdLd := cmd.fn.mcmd == VMUFn.M_XRD
  cmdSt := cmd.fn.mcmd == VMUFn.M_XWR
  cmdAmo := VMUFn.isAMO cmd.fn.mcmd
  typRaw := cmd.fn.typ
  typB := cmd.fn.typ == 0b000 || cmd.fn.typ == 0b100
  typH := cmd.fn.typ == 0b001 || cmd.fn.typ == 0b101
  typW := cmd.fn.typ == 0b010 || cmd.fn.typ == 0b110
  typD := cmd.fn.typ == VMUFn.MT_D
  vlen := cmd.vlen
  base := addr.base
  stride := addr.stride

end Hwacha

end RiscvSoc
