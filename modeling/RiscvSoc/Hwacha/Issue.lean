import RiscvSoc.Hardfloat.FloatN
import RiscvSoc.Hwacha.Dispatch
import RiscvSoc.Hwacha.IssueTable
import RiscvSoc.Lib.Handshake

/-!
# The issue stage

`IssueTVEC` takes the commands of the vector command queue. A vector-fetch command hands over to
`IssueVT`, which takes instructions until one of them stops. What they take goes to the sequencer,
to the deck, to the queues of the memory unit and to the buffers that a restart is made from, each
with its own `enq`: whether the operation has a part for it.

An operation whose destination is the register zero has no part for the sequencer, and none for the
counts of a restart. The deck and the memory unit do not look at the destination.
-/

namespace RiscvSoc

namespace Hwacha

namespace Issue

/-! ### Operations -/

/-- `VMULaneFn`. -/
structure LaneFn extends VMUFn where
  float : Bool
  deriving DecidableEq

/-- With a rounding mode. -/
structure VAU1Fn extends VAU1Col where
  rm : BitVec 3

structure VAU2Fn extends VAU2Col where
  rm : BitVec 3

structure RegInfo where
  zero : Bool
  float : Bool
  id : BitVec 8

/-- `DecodedRegister`; `vr` is not always driven. -/
structure Regs where
  vs : RegInfo
  vt : RegInfo
  vr : Option RegInfo
  vd : RegInfo

/-- `RegHazardInfo`; `base` is not always driven. -/
structure RegCheck where
  active : Bool
  base : Option (BitVec 5)

/-- The kinds of operations. -/
structure Active where
  viu : Bool
  vau0 : Bool
  vau1 : Bool
  vau2 : Bool
  amo : Bool
  utld : Bool
  utst : Bool
  vld : Bool
  vst : Bool

/-- `memop`. -/
def Active.mem (a : Active) : Bool := a.amo || a.utld || a.utst || a.vld || a.vst

def Active.any (a : Active) : Bool := a.viu || a.vau0 || a.vau1 || a.vau2 || a.mem

/-- `AIWUpdateEntry`. -/
structure AIWUpdate where
  activeImm1 : Bool
  activeCnt : Bool
  imm1Rtag : BitVec 3
  pcNext : Option (BitVec 64)
  cntRtag : BitVec 3
  cntUtidx : BitVec 12
  numcntRtag : BitVec 3

/-- An operation, without `sel`, which is given to it later. -/
structure IssueOp where
  active : Active
  vlen : BitVec 12
  utidx : BitVec 12
  viu : VIUFn
  vau0 : Option VAU0Fn
  vau1 : Option VAU1Fn
  vau2 : Option VAU2Fn
  vmu : LaneFn
  reg : Regs
  checkVs : RegCheck
  checkVt : RegCheck
  checkVr : RegCheck
  checkVd : RegCheck
  imm : BitVec 66
  stride : Option (BitVec 64)
  aiw : AIWUpdate

structure DeckOp where
  vlen : BitVec 12
  utidx : BitVec 12
  fn : LaneFn
  reg : Regs

namespace IssueOp

variable (op : IssueOp)

/-- `io.deckop.bits`. -/
def deckOp : DeckOp := ⟨op.vlen, 0, op.vmu, op.reg⟩

/-- `io.vmu.issue.cmdq.bits`. -/
def vmuOp : VMUOp := ⟨op.vlen, op.vmu.op, op.vmu.typ⟩

/-- The destination is the register zero. -/
def vdZero : Bool := op.checkVd.active && op.reg.vd.zero

/-- A memory operation of a whole vector. -/
def tvecMem : Bool := op.active.vld || op.active.vst

/-- What the address queue of the memory unit gets for it. -/
def addressOp : VMUAddressOp := ⟨op.imm.setWidth 64, op.stride.getD 0⟩

end IssueOp

/-! ### Ports -/

/-- The bits of a port are there also when they are not valid. -/
structure Offer (α : Type) where
  valid : Bool
  bits : α

structure FrontendResp where
  pc : BitVec 44
  data : BitVec 32
  xcptMa : Bool
  xcptIf : Bool

/-- What an operation can have a part for: the last five are the buffers of `AIW`, and `numcnt` is
the update of `numcntb`. -/
inductive IssueUnit
  | seq
  | deck
  | cmdq
  | addrq
  | cmdb
  | imm1b
  | imm2b
  | cntb
  | numcntb
  | numcnt
  deriving DecidableEq

structure IssueIn where
  flush : Bool
  /-- `io.xcpt.prop.issue.stall`. -/
  stall : Bool
  cmd : Offer HwachaCommand
  imm1 : Offer (BitVec 64)
  imm2 : Offer (BitVec 64)
  cnt : Offer (BitVec 12)
  /-- `io.imem.resp`. -/
  resp : Offer FrontendResp
  tvecReady : Bool
  vtReady : Bool
  deckReady : Bool
  cmdqReady : Bool
  addrqReady : Bool
  cmdbReady : Bool
  imm1bReady : Bool
  imm2bReady : Bool
  cntbReady : Bool
  numcntbReady : Bool
  rtagImm1 : BitVec 3
  rtagCnt : BitVec 3
  rtagNumcnt : BitVec 3

/-- The conditions of `fire`: the item is there, the immediates that it takes are, and a unit is
ready or has no part. -/
inductive IssueGuard
  | item
  | imm1
  | imm2
  | unit (u : IssueUnit)
  deriving DecidableEq

/-- Whether a unit is ready; for the sequencer this depends on who asks. -/
def unitReady (i : IssueIn) (seqReady : Bool) : IssueUnit → Bool
  | .seq => seqReady
  | .deck => i.deckReady
  | .cmdq => i.cmdqReady
  | .addrq => i.addrqReady
  | .cmdb => i.cmdbReady
  | .imm1b => i.imm1bReady
  | .imm2b => i.imm2bReady
  | .cntb => i.cntbReady
  | .numcntb => i.numcntbReady
  | .numcnt => true

def cnt (i : IssueIn) : BitVec 12 := if i.cnt.valid then i.cnt.bits else 0

/-- `id` of a register: `base` are the registers of the microthreads before, of this kind. -/
def regId (float : Bool) (fbase xbase : ℕ) (r : BitVec 5) : BitVec 8 :=
  if float then BitVec.ofNat 8 (fbase + r.toNat) else BitVec.ofNat 8 (xbase + (r - 1).toNat)

/-- The registers of a microthread. -/
def regInfo (fbase xbase : ℕ) (info : RInfo) (r : BitVec 5) : RegInfo where
  zero := !info.fp && r == 0
  float := info.fp
  id := regId info.fp fbase xbase r

/-! ### Commands -/

inductive IssueState
  | tvec
  | vt
  deriving DecidableEq

structure IssueTVEC where
  state : IssueState
  vlen : BitVec 12
  nxregs : BitVec 6
  nfregs : BitVec 6
  bactive : BitVec 8
  bcnt : BitVec 4
  xstride : BitVec 6
  fstride : BitVec 6
  xfSplit : BitVec 8
  precision : BitVec 2

/-- `HwachaImm1`. -/
structure HwachaImm1 where
  prec : BitVec 2
  xfSplit : BitVec 8
  bcnt : BitVec 4
  bactive : BitVec 8
  nfregs : BitVec 6
  nxregs : BitVec 6
  vlen : BitVec 12

def HwachaImm1.fromBits (b : BitVec 64) : HwachaImm1 where
  prec := b.extractLsb' 44 2
  xfSplit := b.extractLsb' 36 8
  bcnt := b.extractLsb' 32 4
  bactive := b.extractLsb' 24 8
  nfregs := b.extractLsb' 18 6
  nxregs := b.extractLsb' 12 6
  vlen := b.extractLsb' 0 12

/-- The bits of a recoded number. -/
def recBits {sigWidth expWidth : ℕ} (x : RecFloat sigWidth expWidth) :
    BitVec (1 + expWidth + sigWidth) :=
  BitVec.ofBool x.sign ++ x.exp ++ x.sig

/-- `encode_sp`. -/
def encodeSp (b : BitVec 64) : BitVec 33 :=
  recBits (floatNToRecodedFloatN (⟨b.getLsbD 31, b.extractLsb' 23 8, b.setWidth 23⟩ : FloatN 23 9))

/-- `encode_dp`. -/
def encodeDp (b : BitVec 64) : BitVec 65 :=
  recBits (floatNToRecodedFloatN
    (⟨b.getLsbD 63, b.extractLsb' 52 11, b.setWidth 52⟩ : FloatN 52 12))

/-- `pack_float_s`, into the lower place. -/
def packFloatS (n : BitVec 33) : BitVec 66 :=
  (1 : BitVec 1) ++ n.extractLsb' 32 1 ++ (0xFFFFFFFF : BitVec 32) ++ n.extractLsb' 0 32

/-- `pack_float_d`. -/
def packFloatD (n : BitVec 65) : BitVec 66 := (1 : BitVec 1) ++ n

namespace IssueTVEC

variable (x : BitVec 8 → TVECDontCares) (s : IssueTVEC) (i : IssueIn)

/-- The registers after a reset. -/
def reset : IssueTVEC := ⟨.tvec, 0, 32, 32, 0xff, 8, 31, 32, 124, 0⟩

def ctrl : TVECCtrl := .decode x i.cmd.bits.cmcode

/-- `tvec_active`. -/
def active : Bool := decide (s.state = .tvec)

def vd : BitVec 5 := i.cmd.bits.vd

def vt : BitVec 5 := i.cmd.bits.vt

def imm1 : HwachaImm1 := .fromBits i.imm1.bits

def vfuVal : Bool := (ctrl x i).viuVal || (ctrl x i).vmuVal

def vdZero : Bool := !(ctrl x i).vd.fp && vd i == 0 && (ctrl x i).vd.val

def issueOp : Bool := !vdZero x i && vfuVal x i

/-- The operation has a part for the unit. -/
def enq : IssueUnit → Bool
  | .seq => issueOp x i
  | .deck => (ctrl x i).vmuVal
  | .cmdq => (ctrl x i).vmuVal
  | .addrq => (ctrl x i).vmuVal
  | .cmdb => issueOp x i || (ctrl x i).decodeVf
  | .imm1b => (issueOp x i || (ctrl x i).decodeVf) && (ctrl x i).deqImm1
  | .imm2b => (issueOp x i || (ctrl x i).decodeVf) && (ctrl x i).deqImm2
  | .cntb => issueOp x i
  | .numcntb => issueOp x i || (ctrl x i).decodeVf
  | .numcnt => false

def guards : List IssueGuard :=
  [.item, .imm1, .imm2, .unit .seq, .unit .deck, .unit .cmdq, .unit .addrq, .unit .cmdb,
    .unit .imm1b, .unit .imm2b, .unit .cntb, .unit .numcntb]

def ok : IssueGuard → Bool
  | .item => i.cmd.valid
  | .imm1 => !(ctrl x i).deqImm1 || i.imm1.valid
  | .imm2 => !(ctrl x i).deqImm2 || i.imm2.valid
  | .unit u => !enq x i u || unitReady i i.tvecReady u

def fire (exclude : Option IssueGuard) : Bool :=
  !i.stall && s.active && Handshake.fire guards (ok x i) exclude

/-- `io.vcmdq.cmd.ready`. -/
def cmdReady : Bool := s.fire x i (some .item)

/-- `io.vcmdq.imm2.ready`. -/
def imm2Ready : Bool := s.fire x i (some .imm2) && (ctrl x i).deqImm2

/-- The `valid` of a unit. -/
def valid (u : IssueUnit) : Bool := s.fire x i (some (.unit u)) && enq x i u

def vfFire : Bool := s.fire x i none && (ctrl x i).decodeVf

/-! ### The operation of a command -/

def regidXbase : ℕ := (cnt i >>> 3).toNat * s.xstride.toNat

def regidFbase : ℕ := (cnt i >>> 3).toNat * s.fstride.toNat + s.xfSplit.toNat

def vmuFloat : Bool :=
  (ctrl x i).vmuOp == VMUFn.VM_VLD && (ctrl x i).vd.fp ||
    (ctrl x i).vmuOp == VMUFn.VM_VST && (ctrl x i).vt.fp

def addrStride : BitVec 64 :=
  if (ctrl x i).vmuType = VMUFn.MT_B ∨ (ctrl x i).vmuType = VMUFn.MT_BU then 1
  else if (ctrl x i).vmuType = VMUFn.MT_H ∨ (ctrl x i).vmuType = VMUFn.MT_HU then 2
  else if (ctrl x i).vmuType = VMUFn.MT_W ∨ (ctrl x i).vmuType = VMUFn.MT_WU then 4
  else if (ctrl x i).vmuType = VMUFn.MT_D then 8
  else 0

def imm : BitVec 66 :=
  if (ctrl x i).viuFimmVal && (ctrl x i).viuFimmSel == FPS then packFloatS (encodeSp i.imm1.bits)
  else if (ctrl x i).viuFimmVal && (ctrl x i).viuFimmSel == FPD then
    packFloatD (encodeDp i.imm1.bits)
  else i.imm1.bits.setWidth 66

def op : IssueOp where
  active :=
    { viu := (ctrl x i).viuVal
      vau0 := false
      vau1 := false
      vau2 := false
      amo := false
      utld := false
      utst := false
      vld := (ctrl x i).vmuVal && (ctrl x i).vmuOp == VMUFn.VM_VLD
      vst := (ctrl x i).vmuVal && (ctrl x i).vmuOp == VMUFn.VM_VST }
  vlen := s.vlen - cnt i
  utidx := cnt i
  viu :=
    ⟨(ctrl x i).viuT0, (ctrl x i).viuT1, DW64, FPD,
      if (ctrl x i).viuT0 = MR then VIUOp.mov1.code else VIUOp.mov2.code⟩
  vau0 := none
  vau1 := none
  vau2 := none
  vmu := ⟨⟨(ctrl x i).vmuOp, (ctrl x i).vmuType⟩, vmuFloat x i⟩
  reg :=
    { vs := regInfo (s.regidFbase i) (s.regidXbase i) (ctrl x i).vt (vt i)
      vt := regInfo (s.regidFbase i) (s.regidXbase i) (ctrl x i).vt (vt i)
      vr := none
      vd := regInfo (s.regidFbase i) (s.regidXbase i) (ctrl x i).vd (vd i) }
  checkVs := ⟨false, none⟩
  checkVt := ⟨(ctrl x i).vt.val, some (vt i)⟩
  checkVr := ⟨false, none⟩
  checkVd := ⟨(ctrl x i).vd.val, some (vd i)⟩
  imm := imm x i
  stride := some (if s.imm2Ready x i then i.imm2.bits else addrStride x i)
  aiw := ⟨(ctrl x i).vmuVal, true, i.rtagImm1, none, i.rtagCnt, cnt i, i.rtagNumcnt⟩

/-- `io.vmu.issue.addrq.bits`. -/
def addressOp : VMUAddressOp := ⟨i.imm1.bits, (s.op x i).stride.getD 0⟩

/-! ### One cycle -/

/-- What `vsetcfg` sets. -/
def configure (imm : HwachaImm1) : IssueTVEC :=
  { s with
    vlen := imm.vlen
    nxregs := imm.nxregs
    nfregs := imm.nfregs
    bactive := imm.bactive
    bcnt := imm.bcnt
    xstride := imm.nxregs - 1
    fstride :=
      if imm.prec = 1 then (imm.nfregs + 1) >>> 1
      else if imm.prec = 2 then (imm.nfregs + 3) >>> 2
      else imm.nfregs
    xfSplit := imm.xfSplit
    precision := imm.prec }

/-- The registers that a command sets. -/
def configured : IssueTVEC :=
  if s.fire x i none && (ctrl x i).decodeVcfg then s.configure (imm1 i) else s

/-- One cycle; `stop` is `io.vf.stop`. -/
def next (stop : Bool) : IssueTVEC :=
  { s.configured x i with
    vlen := if s.fire x i none && (ctrl x i).decodeVsetvl then (imm1 i).vlen
      else (s.configured x i).vlen
    state := if stop then .tvec else if s.vfFire x i then .vt else s.state }

end IssueTVEC

/-! ### Instructions -/

structure IssueVT where
  stallHold : Bool
  imm1Rtag : BitVec 3
  numcntRtag : BitVec 3

namespace IssueVT

variable (y : BitVec 32 → VTDontCares) (s : IssueVT) (t : IssueTVEC) (i : IssueIn)

/-- The registers after a reset. -/
def reset : IssueVT := ⟨false, 0, 0⟩

def inst : BitVec 32 := i.resp.bits.data

def ctrl : VTCtrl := .decode y (inst i)

/-- `io.vf.active`. -/
def active : Bool := decide (t.state = .vt)

def vs : BitVec 5 := (inst i).extractLsb' 15 5

def vt : BitVec 5 := (inst i).extractLsb' 20 5

def vr : BitVec 5 := (inst i).extractLsb' 27 5

def vd : BitVec 5 := (inst i).extractLsb' 7 5

def vfuVal : Bool :=
  (ctrl y i).viuVal || (ctrl y i).vau0Val || (ctrl y i).vau1Val || (ctrl y i).vau2Val ||
    (ctrl y i).vmuVal

def vdZero : Bool := !(ctrl y i).vd.fp && vd i == 0 && (ctrl y i).vd.val

def issueOp : Bool := !vdZero y i && vfuVal y i

/-- A register that the configuration does not have. -/
def illegalReg (info : RInfo) (r : BitVec 5) : Bool :=
  info.val && (decide (t.nfregs.toNat ≤ r.toNat) && info.fp ||
    decide (t.nxregs.toNat ≤ r.toNat) && !info.fp)

def irqCommon : Bool := active t && i.resp.valid

/-- `irq`: `ma_inst`, `fault_inst`, `illegal` or `illegal_regid`. -/
def irq : Bool :=
  irqCommon t i && i.resp.bits.xcptMa || irqCommon t i && i.resp.bits.xcptIf ||
    irqCommon t i && !(vfuVal y i || (ctrl y i).decodeStop) ||
    irqCommon t i && (illegalReg t (ctrl y i).vd (vd i) || illegalReg t (ctrl y i).vt (vt i) ||
      illegalReg t (ctrl y i).vs (vs i) || illegalReg t (ctrl y i).vr (vr i))

def stall : Bool := s.stallHold || irq y t i || i.stall

/-- The operation has a part for the unit. -/
def enq : IssueUnit → Bool
  | .seq => issueOp y i
  | .deck => (ctrl y i).vmuVal
  | .cmdq => (ctrl y i).vmuVal
  | .cntb => issueOp y i
  | .numcnt => issueOp y i
  | _ => false

def guards : List IssueGuard := [.item, .unit .seq, .unit .deck, .unit .cmdq, .unit .cntb]

def ok : IssueGuard → Bool
  | .item => i.resp.valid
  | .unit u => !enq y i u || unitReady i i.vtReady u
  | _ => true

def fire (exclude : Option IssueGuard) : Bool :=
  !s.stall y t i && active t && Handshake.fire guards (ok y i) exclude

/-- `io.imem.resp.ready`. -/
def respReady : Bool := s.fire y t i (some .item)

/-- The `valid` of a unit; no `ready` belongs to the update. -/
def valid (u : IssueUnit) : Bool :=
  match u with
  | .numcnt => s.fire y t i none && enq y i .numcnt
  | u => s.fire y t i (some (.unit u)) && enq y i u

/-- `io.vf.stop`. -/
def vfStop : Bool := s.fire y t i none && (ctrl y i).decodeStop

/-! ### The operation of an instruction -/

def regidXbase : ℕ := (cnt i >>> 3).toNat * t.xstride.toNat

def regidFbase : ℕ := (cnt i >>> 3).toNat * t.fstride.toNat + t.xfSplit.toNat

def rm : BitVec 3 :=
  if (inst i).extractLsb' 12 3 = 0b111 then 0 else (inst i).extractLsb' 12 3

def vmuFloat : Bool :=
  (ctrl y i).vmuOp == VMUFn.VM_ULD && (ctrl y i).vd.fp ||
    (ctrl y i).vmuOp == VMUFn.VM_UST && (ctrl y i).vt.fp

def imm : BitVec 66 :=
  if (ctrl y i).imm = IMM_I then
    (((inst i).extractLsb' 20 12).signExtend 64).setWidth 66
  else if (ctrl y i).imm = IMM_S then
    (((inst i).extractLsb' 25 7 ++ (inst i).extractLsb' 7 5 : BitVec 12).signExtend 64).setWidth 66
  else if (ctrl y i).imm = IMM_U then
    (((inst i).extractLsb' 12 20 ++ (0 : BitVec 12) : BitVec 32).signExtend 64).setWidth 66
  else 0

def op : IssueOp where
  active :=
    { viu := (ctrl y i).viuVal
      vau0 := (ctrl y i).vau0Val
      vau1 := (ctrl y i).vau1Val
      vau2 := (ctrl y i).vau2Val
      amo := (ctrl y i).vmuVal && VMUFn.isAMO ((ctrl y i).vmuOp.setWidth 5)
      utld := (ctrl y i).vmuVal && (ctrl y i).vmuOp == VMUFn.VM_ULD
      utst := (ctrl y i).vmuVal && (ctrl y i).vmuOp == VMUFn.VM_UST
      vld := false
      vst := false }
  vlen := t.vlen - cnt i
  utidx := cnt i
  viu := (ctrl y i).viu
  vau0 := some (ctrl y i).vau0
  vau1 := some ⟨(ctrl y i).vau1, rm i⟩
  vau2 := some ⟨(ctrl y i).vau2, rm i⟩
  vmu := ⟨⟨(ctrl y i).vmuOp, (ctrl y i).vmuType⟩, vmuFloat y i⟩
  reg :=
    { vs := regInfo (regidFbase t i) (regidXbase t i) (ctrl y i).vs (vs i)
      vt := regInfo (regidFbase t i) (regidXbase t i) (ctrl y i).vt (vt i)
      vr := some (regInfo (regidFbase t i) (regidXbase t i) (ctrl y i).vr (vr i))
      vd := regInfo (regidFbase t i) (regidXbase t i) (ctrl y i).vd (vd i) }
  checkVs := ⟨(ctrl y i).vs.val, some (vs i)⟩
  checkVt := ⟨(ctrl y i).vt.val, some (vt i)⟩
  checkVr := ⟨(ctrl y i).vr.val, some (vr i)⟩
  checkVd := ⟨(ctrl y i).vd.val, some (vd i)⟩
  imm := imm y i
  stride := none
  aiw := ⟨true, true, s.imm1Rtag, some ((i.resp.bits.pc + 4).setWidth 64), i.rtagCnt, cnt i,
    s.numcntRtag⟩

/-- One cycle; `vfFire` is `io.vf.fire`. -/
def next (vfFire : Bool) : IssueVT where
  stallHold := s.stallHold || irq y t i
  imm1Rtag := if vfFire then i.rtagImm1 else s.imm1Rtag
  numcntRtag := if vfFire then i.rtagNumcnt else s.numcntRtag

end IssueVT

end Issue

/-! ### The stage -/

structure Issue where
  tvec : Issue.IssueTVEC
  vt : Issue.IssueVT

/-- What was taken, and what the units got. -/
structure IssueLog where
  taken : List Issue.IssueOp
  seq : List Issue.IssueOp
  deck : List Issue.DeckOp
  cmdq : List VMUOp
  addrq : List VMUAddressOp
  cntb : List (BitVec 12)

namespace Issue

variable (x : BitVec 8 → TVECDontCares) (y : BitVec 32 → VTDontCares) (s : Issue) (i : IssueIn)

def active : Bool := s.tvec.active

/-- The `valid` of a unit: `arb_producers` for those that both have. -/
def valid (u : IssueUnit) : Bool :=
  match u with
  | .addrq | .cmdb | .imm1b | .imm2b | .numcntb => s.tvec.valid x i u
  | .numcnt => s.vt.valid y s.tvec i u
  | u => if s.active then s.tvec.valid x i u else s.vt.valid y s.tvec i u

def ready (u : IssueUnit) : Bool :=
  unitReady i (if s.active then i.tvecReady else i.vtReady) u

/-- The unit gets its part. -/
def delivered (u : IssueUnit) : Bool := s.valid x y i u && s.ready i u

/-- A command or an instruction is taken. -/
def taken : Bool :=
  s.tvec.cmdReady x i && i.cmd.valid || s.vt.respReady y s.tvec i && i.resp.valid

/-- The operation at hand. -/
def op : IssueOp := if s.active then s.tvec.op x i else s.vt.op y s.tvec i

def next : Issue :=
  if i.flush then ⟨.reset, .reset⟩
  else ⟨s.tvec.next x i (s.vt.vfStop y s.tvec i), s.vt.next y s.tvec i (s.tvec.vfFire x i)⟩

def note (g : IssueLog) : IssueLog where
  taken := g.taken ++ if s.taken x y i then [s.op x y i] else []
  seq := g.seq ++ if s.delivered x y i .seq then [s.op x y i] else []
  deck := g.deck ++ if s.delivered x y i .deck then [(s.op x y i).deckOp] else []
  cmdq := g.cmdq ++ if s.delivered x y i .cmdq then [(s.op x y i).vmuOp] else []
  addrq := g.addrq ++ if s.delivered x y i .addrq then [s.tvec.addressOp x i] else []
  cntb := g.cntb ++ if s.delivered x y i .cntb then [cnt i] else []

def machine : Machine (Issue × IssueLog) IssueIn :=
  (Machine.clocked (· = ⟨.reset, .reset⟩) (next x y)).observe ⟨[], [], [], [], [], []⟩ (note x y)

/-! ### All or nothing -/

/-- The operation at hand is one of the memory unit. -/
def isMem : Bool :=
  if s.active then (IssueTVEC.ctrl x i).vmuVal else (IssueVT.ctrl y i).vmuVal

/-- Its destination is the register zero. -/
def vdZero : Bool := if s.active then IssueTVEC.vdZero x i else IssueVT.vdZero y i

/-- The unit is needed for what is at hand. -/
def involves (u : IssueUnit) : Bool :=
  if s.active then
    match u with
    | .seq | .cntb => IssueTVEC.vfuVal x i
    | .deck | .cmdq | .addrq => (IssueTVEC.ctrl x i).vmuVal
    | .cmdb | .numcntb => IssueTVEC.vfuVal x i || (IssueTVEC.ctrl x i).decodeVf
    | .imm1b =>
      (IssueTVEC.vfuVal x i || (IssueTVEC.ctrl x i).decodeVf) && (IssueTVEC.ctrl x i).deqImm1
    | .imm2b =>
      (IssueTVEC.vfuVal x i || (IssueTVEC.ctrl x i).decodeVf) && (IssueTVEC.ctrl x i).deqImm2
    | .numcnt => false
  else
    match u with
    | .seq | .cntb | .numcnt => IssueVT.vfuVal y i
    | .deck | .cmdq => (IssueVT.ctrl y i).vmuVal
    | _ => false

/-- What is at hand is taken with all units that are needed for it, or no unit gets anything. Then
it is not taken, or it is one that writes the register zero and is no atomic. -/
def AllOrNothing : Prop :=
  s.taken x y i = true ∧ (∀ u, s.delivered x y i u = s.involves x y i u) ∨
    (∀ u, s.delivered x y i u = false) ∧ (s.taken x y i = true →
      s.vdZero x y i = true ∧ (s.op x y i).active.amo = false)

/-- A memory operation whose destination is the register zero is taken. -/
def LosesMem : Prop :=
  s.taken x y i = true ∧ s.isMem x y i = true ∧ s.vdZero x y i = true

end Issue

end Hwacha

end RiscvSoc
