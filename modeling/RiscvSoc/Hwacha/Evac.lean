import Mathlib.Data.List.Basic
import RiscvSoc.Uncore.MemTyp

/-!
# Evacuation of the vector unit

`Evac` from `hwacha/src/main/scala/evac.scala`, with the queues it empties: the buffers of the
instruction window (`aiw.scala`, `util.scala`) and the vector command queues (`vu.scala`). After an
exception all commands that are not done are written to memory, oldest first. The window has the
commands that have been issued, the command queues have the others. A command is a header with flags
that say what follows it, then its immediates, then its counts; a word of ones comes last.

The window counts in `numcntb` how many counts of a command are left, and the mark next to it is up
when no more can come. A command that is marked and has no counts left is done, and the window drops
it by itself. A command whose mark is down is a vector-fetch block that is still being issued. If it
was evacuated before, the rest of its counts is in the count queue of the other side.

A queue is the list of what it holds, oldest first. What the command queue shows while it is empty
is an input (`stale`): some outputs look at it without need. The sequencer is drained by the time
evacuation starts, and nobody else touches the queues.
-/

namespace RiscvSoc

namespace Hwacha

/-! ### Decode tables -/

/-- One line of the table of `Evac`. -/
structure EvacRow where
  vf : Bool
  deqIrcmdb : Bool
  deqIrimm1b : Bool
  deqIrimm2b : Bool
  deqIrcntb : Bool
  deqVcmdq : Bool
  deqVimm1q : Bool
  deqVimm2q : Bool
  deqVcntq : Bool
  isPrefetch : Bool
  deriving DecidableEq

namespace EvacRow

def default : EvacRow :=
  ⟨false, false, false, false, false, false, false, false, false, false⟩

def setting : EvacRow := ⟨false, false, false, false, false, true, true, false, false, false⟩

def fetch : EvacRow := ⟨true, true, true, false, true, true, true, false, true, false⟩

/-- From a register. -/
def vmove : EvacRow := ⟨false, true, false, false, true, true, false, false, true, false⟩

/-- From the immediate. -/
def smove : EvacRow := ⟨false, true, true, false, true, true, true, false, true, false⟩

/-- A vector load or store. -/
def unit : EvacRow := ⟨false, true, true, false, true, true, true, false, true, true⟩

/-- One with a stride. -/
def strided : EvacRow := ⟨false, true, true, true, true, true, true, true, true, true⟩

def table : List (BitVec 8 × EvacRow) := [
   -- CMD_VSETCFG, CMD_VSETVL, CMD_VF
   (0b00000000, setting),
   (0b00000010, setting),
   (0b00000011, fetch),
   -- CMD_VMVV, CMD_VMSV, CMD_VFMVV, CMD_VFMSV_S, CMD_VFMSV_D
   (0b01000000, vmove),
   (0b01001000, smove),
   (0b01000001, vmove),
   (0b01001001, smove),
   (0b01011001, smove),
   -- CMD_VLD, CMD_VLW, CMD_VLWU, CMD_VLH, CMD_VLHU, CMD_VLB, CMD_VLBU
   (0b10000011, unit),
   (0b10000010, unit),
   (0b10000110, unit),
   (0b10000001, unit),
   (0b10000101, unit),
   (0b10000000, unit),
   (0b10000100, unit),
   -- CMD_VSD, CMD_VSW, CMD_VSH, CMD_VSB
   (0b10010011, unit),
   (0b10010010, unit),
   (0b10010001, unit),
   (0b10010000, unit),
   -- CMD_VFLD, CMD_VFLW, CMD_VFSD, CMD_VFSW
   (0b10001011, unit),
   (0b10001010, unit),
   (0b10011011, unit),
   (0b10011010, unit),
   -- CMD_VLSTD, CMD_VLSTW, CMD_VLSTWU, CMD_VLSTH, CMD_VLSTHU, CMD_VLSTB, CMD_VLSTBU
   (0b10100011, strided),
   (0b10100010, strided),
   (0b10100110, strided),
   (0b10100001, strided),
   (0b10100101, strided),
   (0b10100000, strided),
   (0b10100100, strided),
   -- CMD_VSSTD, CMD_VSSTW, CMD_VSSTH, CMD_VSSTB
   (0b10110011, strided),
   (0b10110010, strided),
   (0b10110001, strided),
   (0b10110000, strided),
   -- CMD_VFLSTD, CMD_VFLSTW, CMD_VFSSTD, CMD_VFSSTW
   (0b10101011, strided),
   (0b10101010, strided),
   (0b10111011, strided),
   (0b10111010, strided)]

/-- The line of a command. -/
def find (code : BitVec 8) : EvacRow := (table.lookup code).getD default

end EvacRow

/-- One line of the table of `AIW`. -/
structure AIWRow where
  vf : Bool
  deqIrcmdb : Bool
  deqIrimm1b : Bool
  deqIrimm2b : Bool
  deqIrcntb : Bool
  deriving DecidableEq

namespace AIWRow

def default : AIWRow := ⟨false, false, false, false, false⟩

def fetch : AIWRow := ⟨true, false, true, false, true⟩

def vmove : AIWRow := ⟨false, true, false, false, true⟩

/-- With an immediate: from the immediate, and loads and stores. -/
def smove : AIWRow := ⟨false, true, true, false, true⟩

def strided : AIWRow := ⟨false, true, true, true, true⟩

def table : List (BitVec 8 × AIWRow) := [
   -- CMD_VF
   (0b00000011, fetch),
   -- CMD_VMVV, CMD_VMSV, CMD_VFMVV, CMD_VFMSV_S, CMD_VFMSV_D
   (0b01000000, vmove),
   (0b01001000, smove),
   (0b01000001, vmove),
   (0b01001001, smove),
   (0b01011001, smove),
   -- CMD_VLD, CMD_VLW, CMD_VLWU, CMD_VLH, CMD_VLHU, CMD_VLB, CMD_VLBU
   (0b10000011, smove),
   (0b10000010, smove),
   (0b10000110, smove),
   (0b10000001, smove),
   (0b10000101, smove),
   (0b10000000, smove),
   (0b10000100, smove),
   -- CMD_VSD, CMD_VSW, CMD_VSH, CMD_VSB
   (0b10010011, smove),
   (0b10010010, smove),
   (0b10010001, smove),
   (0b10010000, smove),
   -- CMD_VFLD, CMD_VFLW, CMD_VFSD, CMD_VFSW
   (0b10001011, smove),
   (0b10001010, smove),
   (0b10011011, smove),
   (0b10011010, smove),
   -- CMD_VLSTD, CMD_VLSTW, CMD_VLSTWU, CMD_VLSTH, CMD_VLSTHU, CMD_VLSTB, CMD_VLSTBU
   (0b10100011, strided),
   (0b10100010, strided),
   (0b10100110, strided),
   (0b10100001, strided),
   (0b10100101, strided),
   (0b10100000, strided),
   (0b10100100, strided),
   -- CMD_VSSTD, CMD_VSSTW, CMD_VSSTH, CMD_VSSTB
   (0b10110011, strided),
   (0b10110010, strided),
   (0b10110001, strided),
   (0b10110000, strided),
   -- CMD_VFLSTD, CMD_VFLSTW, CMD_VFSSTD, CMD_VFSSTW
   (0b10101011, strided),
   (0b10101010, strided),
   (0b10111011, strided),
   (0b10111010, strided)]

/-- The line of a command. -/
def find (code : BitVec 8) : AIWRow := (table.lookup code).getD default

end AIWRow

/-! ### Words of the image -/

/-- `HwachaCommand`, as bits. -/
abbrev VCmd : Type := BitVec 18

/-- `cmcode`. -/
def VCmd.code (cmd : VCmd) : BitVec 8 := cmd.extractLsb' 10 8

/-- A count. -/
abbrev VCnt : Type := BitVec 12

/-- The flags are those of the buffers a command comes from. -/
def header (isPrefetch imm1 imm2 cnt : Bool) (cmd : VCmd) : Word :=
  0#27 ++ BitVec.ofBool isPrefetch ++ BitVec.ofBool imm1 ++ BitVec.ofBool imm2 ++ BitVec.ofBool cnt
    ++ 1#1 ++ 0#14 ++ cmd

def cntWord (cnt : VCnt) : Word := cnt.setWidth 64

/-- `Bits("hffff_ffff_ffff_ffff")`. -/
def terminator : Word := BitVec.allOnes 64

/-! ### Registers, queues and inputs -/

inductive EvacState
  | idle | cmdb | imm1b | imm2b | cntb | preVcmdq | vcmdq | vimm1q | vimm2q | vcntq | done
  deriving DecidableEq

/-- The buffers of the window. -/
structure AIWQueues where
  cmdb : List VCmd
  imm1b : List Word
  imm2b : List Word
  cntb : List VCnt
  /-- The counters, with the marks. -/
  numcntb : List (ℕ × Bool)
  deriving DecidableEq

/-- The vector command queues. A count has a mark that says that it is the last of its command. -/
structure VCMDQueues where
  cmd : List VCmd
  imm1 : List Word
  imm2 : List Word
  cnt : List (VCnt × Bool)
  deriving DecidableEq

structure EvacSys where
  state : EvacState
  /-- `cmd_sel` is `SEL_VCMDQ`. -/
  selVcmdq : Bool
  addr : BitVec 64
  aiw : AIWQueues
  vcmdq : VCMDQueues
  deriving DecidableEq

structure EvacInput where
  start : Bool
  /-- `evac.addr`. -/
  base : BitVec 64
  vaqReady : Bool
  vsdqReady : Bool
  /-- What a command queue shows while it is empty. -/
  stale : VCmd

/-- Both queues take what they are offered. -/
def EvacInput.go (i : EvacInput) : Bool := i.vsdqReady && i.vaqReady

/-! ### One cycle -/

/-- The outputs and the inputs of the registers. -/
structure EvacOut where
  stateNext : EvacState
  selVcmdqNext : Bool
  addrNext : BitVec 64
  /-- The data, in the states that have some for the memory. -/
  vsdqBits : Option Word
  cmdbReady : Bool
  imm1bReady : Bool
  imm2bReady : Bool
  cntbReady : Bool
  numcntbReady : Bool
  updateNumcnt : Bool
  vcmdReady : Bool
  vimm1Ready : Bool
  vimm2Ready : Bool
  vcntReady : Bool

/-- The defaults. -/
def EvacOut.init (state : EvacState) (selVcmdq : Bool) (addr : BitVec 64) : EvacOut :=
  ⟨state, selVcmdq, addr, none, false, false, false, false, false, false, false, false, false,
    false⟩

namespace EvacSys

variable (s : EvacSys) (i : EvacInput)

/-- The command in front. -/
def cmd : VCmd := if s.selVcmdq then s.vcmdq.cmd.headD i.stale else s.aiw.cmdb.headD i.stale

def row : EvacRow := EvacRow.find (s.cmd i).code

/-- The state after a header of the window. After an immediate it is the same, without the
immediates that have been written. -/
def afterIr (imm1 imm2 cnt : Bool) : EvacState :=
  if imm1 then .imm1b else if imm2 then .imm2b else if cnt then .cntb else .cmdb

/-- The same for the command queues. The counts are looked for only if there are any. -/
def afterV (imm1 imm2 cnt : Bool) : EvacState :=
  if imm1 then .vimm1q else if imm2 then .vimm2q else if cnt then .vcntq else .vcmdq

/-- What every state starts from. -/
def hold : EvacOut := .init s.state s.selVcmdq s.addr

/-- The word is written, and then `state` is next. -/
def write (w : Word) (state : EvacState) : EvacOut :=
  { s.hold with
    vsdqBits := some w
    addrNext := if i.go then s.addr + 8 else s.addr
    stateNext := if i.go then state else s.state }

def outCmdb : EvacOut :=
  let r := s.row i
  let ready := r.deqIrcmdb && i.go && (!r.deqIrimm1b && !r.deqIrimm1b && !r.deqIrcntb)
  match s.aiw.cmdb with
  | c :: _ =>
    if r.deqIrcmdb then
      { s.write i (header r.isPrefetch r.deqIrimm1b r.deqIrimm2b r.deqIrcntb c)
          (afterIr r.deqIrimm1b r.deqIrimm2b r.deqIrcntb) with
        cmdbReady := ready }
    else { s.hold with cmdbReady := ready }
  | [] => { s.hold with stateNext := .vcmdq, selVcmdqNext := true, cmdbReady := ready }

def outImm1b : EvacOut :=
  let r := s.row i
  match s.aiw.imm1b with
  | w :: _ =>
    if r.deqIrimm1b then
      { s.write i w (afterIr false r.deqIrimm2b r.deqIrcntb) with
        cmdbReady := i.go && !r.deqIrimm2b && !r.deqIrcntb }
    else s.hold
  | [] => s.hold

def outImm2b : EvacOut :=
  let r := s.row i
  match s.aiw.imm2b with
  | w :: _ =>
    if r.deqIrimm2b then
      { s.write i w (afterIr false false r.deqIrcntb) with cmdbReady := i.go && !r.deqIrcntb }
    else s.hold
  | [] => s.hold

def outCntb : EvacOut :=
  let r := s.row i
  match s.aiw.numcntb with
  | (n, last) :: _ =>
    if decide (n ≠ 0) && r.deqIrcntb then
      -- A counter that is not zero has its counts in `cntb`.
      { s.write i (cntWord (s.aiw.cntb.headD 0)) .cntb with
        cntbReady := i.go
        updateNumcnt := i.go }
    else if n = 0 then
      if last then { s.hold with stateNext := .cmdb }
      else
        { s.hold with
          stateNext := .preVcmdq
          cmdbReady := true
          imm1bReady := r.deqIrimm1b
          imm2bReady := r.deqIrimm2b
          numcntbReady := true }
    else s.hold
  | [] => s.hold

def outPreVcmdq : EvacOut :=
  match s.vcmdq.cnt with
  | (cnt, last) :: _ =>
    { s.write i (cntWord cnt) (if last then .vcmdq else .preVcmdq) with
      selVcmdqNext := if i.go && last then true else s.selVcmdq
      vcntReady := i.go }
  | [] => { s.hold with stateNext := .vcmdq, selVcmdqNext := true, vcntReady := i.go }

def outVcmdq : EvacOut :=
  let r := s.row i
  let cntValid := !s.vcmdq.cnt.isEmpty
  let ready := r.deqVcmdq && i.go && (!r.deqVimm1q && !r.deqVimm2q && (!r.deqVcntq || !cntValid))
  match s.vcmdq.cmd with
  | c :: _ =>
    if r.deqVcmdq then
      { s.write i (header r.isPrefetch r.deqVimm1q r.deqVimm2q r.deqVcntq c)
          (afterV r.deqVimm1q r.deqVimm2q (r.deqVcntq && cntValid)) with
        vcmdReady := ready }
    else { s.hold with vcmdReady := ready }
  | [] => { s.write i terminator .done with vcmdReady := ready }

def outVimm1q : EvacOut :=
  let r := s.row i
  let cnt := r.deqVcntq && !s.vcmdq.cnt.isEmpty
  let ready := r.deqVimm1q && i.go
  match s.vcmdq.imm1 with
  | w :: _ =>
    if r.deqVimm1q then
      { s.write i w (afterV false r.deqVimm2q cnt) with
        vcmdReady := i.go && !r.deqVimm2q && !cnt
        vimm1Ready := ready }
    else { s.hold with vimm1Ready := ready }
  | [] => { s.hold with vimm1Ready := ready }

def outVimm2q : EvacOut :=
  let r := s.row i
  let cnt := r.deqVcntq && !s.vcmdq.cnt.isEmpty
  let ready := r.deqVimm2q && i.go
  match s.vcmdq.imm2 with
  | w :: _ =>
    if r.deqVimm2q then
      { s.write i w (afterV false false cnt) with
        vcmdReady := i.go && !cnt
        vimm2Ready := ready }
    else { s.hold with vimm2Ready := ready }
  | [] => { s.hold with vimm2Ready := ready }

def outVcntq : EvacOut :=
  let r := s.row i
  let ready := r.deqVcntq && i.go
  match s.vcmdq.cnt with
  | (cnt, _) :: _ =>
    if r.deqVcntq then
      { s.write i (cntWord cnt) (if r.vf then .vcntq else .vcmdq) with
        vcmdReady := i.go && !r.vf
        vcntReady := ready }
    else { s.hold with vcntReady := ready }
  | [] => { s.hold with stateNext := .vcmdq, vcmdReady := true, vcntReady := ready }

/-- `switch (state)`. -/
def out : EvacOut :=
  match s.state with
  | .idle =>
    if i.start then
      { s.hold with stateNext := .cmdb, selVcmdqNext := false, addrNext := i.base }
    else s.hold
  | .cmdb => s.outCmdb i
  | .imm1b => s.outImm1b i
  | .imm2b => s.outImm2b i
  | .cntb => s.outCntb i
  | .preVcmdq => s.outPreVcmdq i
  | .vcmdq => s.outVcmdq i
  | .vimm1q => s.outVimm1q i
  | .vimm2q => s.outVimm2q i
  | .vcntq => s.outVcntq i
  | .done => { s.hold with stateNext := .idle }

/-- The address has as many bits as the queue, and both queues take their part in the same cycle. -/
def written : List (BitVec 43 × Word) :=
  match (s.out i).vsdqBits with
  | some w => if i.go then [(s.addr.setWidth 43, w)] else []
  | none => []

/-- `io.xcpt.report.evac.done`. -/
def reportDone : Bool := decide (s.state = .done)

end EvacSys

/-- A queue gives up its oldest entry. -/
def deq {α : Type} (ready : Bool) (q : List α) : List α := if ready then q.tail else q

namespace AIWQueues

variable (q : AIWQueues)

/-- `do_deq`: the oldest command is done. -/
def doDeq : Bool :=
  match q.numcntb with
  | (n, last) :: _ => decide (n = 0) && last
  | [] => false

/-- A counter is not taken below zero. -/
def decHead : List (ℕ × Bool) → List (ℕ × Bool)
  | (n, last) :: l => (n - 1, last) :: l
  | [] => []

/-- One cycle of the window, with the sequencer at rest. -/
def next (o : EvacOut) (stale : VCmd) : AIWQueues :=
  let r := AIWRow.find (q.cmdb.headD stale).code
  { cmdb := deq (q.doDeq || o.cmdbReady) q.cmdb
    imm1b := deq (q.doDeq && r.deqIrimm1b || o.imm1bReady) q.imm1b
    imm2b := deq (q.doDeq && r.deqIrimm2b || o.imm2bReady) q.imm2b
    cntb := deq o.cntbReady q.cntb
    numcntb :=
      deq (q.doDeq || o.numcntbReady) (if o.updateNumcnt then decHead q.numcntb else q.numcntb) }

end AIWQueues

/-- One cycle of the command queues. -/
def VCMDQueues.next (q : VCMDQueues) (o : EvacOut) : VCMDQueues where
  cmd := deq o.vcmdReady q.cmd
  imm1 := deq o.vimm1Ready q.imm1
  imm2 := deq o.vimm2Ready q.imm2
  cnt := deq o.vcntReady q.cnt

/-- One cycle. -/
def EvacSys.next (s : EvacSys) (i : EvacInput) : EvacSys where
  state := (s.out i).stateNext
  selVcmdq := (s.out i).selVcmdqNext
  addr := (s.out i).addrNext
  aiw := s.aiw.next (s.out i) i.stale
  vcmdq := s.vcmdq.next (s.out i)

end Hwacha

end RiscvSoc
