import Mathlib.Data.Fin.Basic
import Mathlib.Logic.Function.Basic
import RiscvSoc.Lib.Arbiter
import RiscvSoc.Lib.Bits
import RiscvSoc.Lib.Machine
import RiscvSoc.Uncore.Coherence

/-!
# Miss status holding registers

`MSHR` and `MSHRFile` from `rocket/src/main/scala/nbdcache.scala`, one clock cycle at a time. An
`MSHR` holds one missing line: it writes the victim back, asks for the line, writes the metadata and
then replays the requests that were waiting for it. The file picks an `MSHR` for each request, and
keeps the data of waiting stores in the store data queue.

The replay queue is a list, oldest first. In a block of `when`s each assignment to `state` is made
in a state of its own, so `MSHR.nextState` is a `match`.

## What is left out

`release_type`, which is written and never read, and `mem_resp`, which only the data array looks at.
-/

namespace RiscvSoc

/-- `isPrefetch`. -/
def MemCmd.isPrefetch (cmd : MemCmd) : Bool := cmd == .pfr || cmd == .pfw

namespace Rocket

open Bits

/-! ### Parameters -/

/-- What the data cache asks a policy, on top of `CoherencePolicy`. -/
structure DCachePolicy extends CoherencePolicy where
  needsTransactionOnSecondaryMiss : MemCmd → AcquireType → Bool

structure DCacheConfig where
  nmshr : ℕ
  nrpq : ℕ
  nsdq : ℕ
  refillcycles : ℕ
  offbits : ℕ
  untagbits : ℕ
  tagbits : ℕ
  nrpq_pos : 0 < nrpq
  nsdq_pos : 0 < nsdq

instance (c : DCacheConfig) : NeZero c.nsdq := ⟨c.nsdq_pos.ne'⟩

variable {P : DCachePolicy} {c : DCacheConfig}

/-- The index of a set. -/
def DCacheConfig.idx (c : DCacheConfig) (addr : ℕ) : ℕ := bits addr (c.untagbits - 1) c.offbits

/-! ### Requests -/

structure HellaCacheReq where
  kill : Bool
  typ : ℕ
  phys : Bool
  addr : ℕ
  data : ℕ
  tag : ℕ
  cmd : MemCmd

structure MSHRReq (P : DCachePolicy) extends HellaCacheReq where
  tagMatch : Bool
  /-- `old_meta`. -/
  oldState : P.ClientState
  oldTag : ℕ
  wayEn : ℕ

structure Replay (c : DCacheConfig) extends HellaCacheReq where
  sdqId : Fin c.nsdq

/-- A grant from the outer memory system. -/
structure MemGrant (P : DCachePolicy) where
  gType : P.GrantType
  clientXactId : ℕ
  masterXactId : ℕ

/-! ### `MSHR` -/

inductive MSHRState
  | sInvalid | sWbReq | sWbResp | sMetaClear | sRefillReq | sRefillResp | sMetaWriteReq
  | sMetaWriteResp | sDrainRpq
  deriving DecidableEq, Repr

structure MSHR (P : DCachePolicy) (c : DCacheConfig) where
  state : MSHRState
  acquireType : P.AcquireType
  lineState : P.ClientState
  refillCount : ℕ
  req : MSHRReq P
  rpq : List (Replay c)
  /-- The `master_xact_id` of the grant to be acknowledged. -/
  ackq : Option ℕ
  metaHazard : ℕ

/-- What an `MSHR` sees in one cycle. -/
structure MSHRInput (P : DCachePolicy) (c : DCacheConfig) where
  reqPriVal : Bool
  reqSecVal : Bool
  reqBits : MSHRReq P
  reqSdqId : Fin c.nsdq
  memReqReady : Bool
  metaReadReady : Bool
  metaWriteReady : Bool
  replayReady : Bool
  memFinishReady : Bool
  wbReqReady : Bool
  /-- The grant on the wires, if it carries this `MSHR`'s id. -/
  reply : Option (MemGrant P)

namespace MSHR

variable (s : MSHR P c)

/-! ### What an `MSHR` shows -/

def reqIdx : ℕ := c.idx s.req.addr

/-- The wire `idx_match` inside the module, which does not look at the state. -/
def sameIdx (bits : MSHRReq P) : Bool := decide (s.reqIdx = c.idx bits.addr)

/-- `io.idx_match`. -/
def idxMatch (bits : MSHRReq P) : Bool := decide (s.state ≠ .sInvalid) && s.sameIdx bits

/-- `io.tag`. -/
def tag : ℕ := s.req.addr / 2 ^ c.untagbits % 2 ^ c.tagbits

def secRdy (bits : MSHRReq P) : Bool :=
  s.sameIdx bits && (decide (s.state = .sWbReq) || decide (s.state = .sWbResp) ||
    decide (s.state = .sMetaClear) ||
    ((decide (s.state = .sRefillReq) || decide (s.state = .sRefillResp)) &&
      !P.needsTransactionOnSecondaryMiss bits.cmd s.acquireType))

/-- `rpq.io.enq.ready`. -/
def rpqRdy : Bool := decide (s.rpq.length < c.nrpq)

def reqPriRdy : Bool := decide (s.state = .sInvalid)

def reqSecRdy (bits : MSHRReq P) : Bool := s.secRdy bits && s.rpqRdy

def memReqValid : Bool := decide (s.state = .sRefillReq) && s.ackq.isNone

def metaReadValid : Bool := decide (s.state = .sDrainRpq)

def metaWriteValid : Bool := decide (s.state = .sMetaWriteReq) || decide (s.state = .sMetaClear)

/-- `meta_write.bits.data.state`. -/
def metaWriteState : P.ClientState :=
  if s.state = .sMetaClear then P.newStateOnFlush else s.lineState

def replayValid : Bool := decide (s.state = .sDrainRpq) && !s.rpq.isEmpty

/-- `io.replay.bits` for the replay `r` at the head of the queue. -/
def replayBits (metaReadReady : Bool) (r : Replay c) : Replay c :=
  { r with
    phys := true
    addr := (s.tag * 2 ^ (c.untagbits - c.offbits) + s.reqIdx) * 2 ^ c.offbits +
      r.addr % 2 ^ c.offbits
    cmd := if metaReadReady then r.cmd else .nop }

def canFinish : Bool :=
  decide (s.state = .sInvalid) || decide (s.state = .sRefillReq) || decide (s.state = .sRefillResp)

def memFinishValid : Bool := s.ackq.isSome && s.canFinish

def wbReqValid : Bool := decide (s.state = .sWbReq) && s.ackq.isNone

def probeRdy (bits : MSHRReq P) : Bool :=
  !s.sameIdx bits || (decide (s.state ≠ .sWbReq) && decide (s.state ≠ .sWbResp) &&
    decide (s.state ≠ .sMetaClear) && decide (s.metaHazard = 0))

/-! ### The registers after a cycle -/

variable (i : MSHRInput P c)

/-- A primary miss is accepted. -/
def priFire : Bool := i.reqPriVal && s.reqPriRdy

/-- A secondary miss is accepted, if the replay queue has room. -/
def secFire : Bool := i.reqSecVal && s.secRdy i.reqBits

def refillDone : Bool :=
  i.reply.isSome && decide (1 < c.refillcycles → s.refillCount = c.refillcycles - 1)

def metaWriteFire : Bool := s.metaWriteValid && i.metaWriteReady

/-- Where a primary miss starts. -/
def startState : MSHRState :=
  if i.reqBits.tagMatch then
    if P.isHit i.reqBits.cmd i.reqBits.oldState then .sMetaWriteReq else .sRefillReq
  else if P.needsWriteback i.reqBits.oldState then .sWbReq else .sMetaClear

def nextState : MSHRState :=
  match s.state with
  | .sInvalid => if i.reqPriVal then startState i else .sInvalid
  | .sWbReq => if s.wbReqValid && i.wbReqReady then .sWbResp else .sWbReq
  | .sWbResp => if i.reply.isSome then .sMetaClear else .sWbResp
  | .sMetaClear => if i.metaWriteReady then .sRefillReq else .sMetaClear
  | .sRefillReq => if s.memReqValid && i.memReqReady then .sRefillResp else .sRefillReq
  | .sRefillResp => if s.refillDone i then .sMetaWriteReq else .sRefillResp
  | .sMetaWriteReq => if i.metaWriteReady then .sMetaWriteResp else .sMetaWriteReq
  | .sMetaWriteResp => .sDrainRpq
  | .sDrainRpq => if s.rpq.isEmpty then .sInvalid else .sDrainRpq

/-- What enters the replay queue. -/
def rpqEnq : List (Replay c) :=
  if (s.priFire i || s.secFire i) && !i.reqBits.cmd.isPrefetch && s.rpqRdy then
    [{ i.reqBits with sdqId := i.reqSdqId }]
  else []

/-- `rpq.io.deq.ready`. -/
def rpqDeqReady : Bool :=
  i.metaReadReady && (i.replayReady && decide (s.state = .sDrainRpq) ||
    decide (s.state = .sInvalid))

def nextAcquireType : P.AcquireType :=
  if s.priFire i then P.getAcquireTypeOnPrimaryMiss i.reqBits.cmd P.newStateOnFlush
  else if i.reqSecVal && s.reqSecRdy i.reqBits then
    P.getAcquireTypeOnSecondaryMiss i.reqBits.cmd P.newStateOnFlush s.acquireType
  else s.acquireType

def nextLineState : P.ClientState :=
  if s.priFire i then
    if i.reqBits.tagMatch && P.isHit i.reqBits.cmd i.reqBits.oldState then
      P.newStateOnHit i.reqBits.cmd i.reqBits.oldState
    else P.newStateOnFlush
  else match i.reply with
    | some g =>
      if s.state = .sRefillResp then P.newStateOnGrant g.gType s.acquireType else s.lineState
    | none => s.lineState

def nextRefillCount : ℕ :=
  if s.priFire i then 0
  else if decide (1 < c.refillcycles) && decide (s.state = .sRefillResp) && i.reply.isSome then
    (s.refillCount + 1) % c.refillcycles
  else s.refillCount

/-- The acknowledgement queue has one place. -/
def nextAckq : Option ℕ :=
  let deq := if s.canFinish && i.memFinishReady then none else s.ackq
  match i.reply with
  | some g =>
    if (decide (s.state = .sWbResp) || s.refillDone i) && P.requiresAckForGrant g.gType &&
        s.ackq.isNone then some g.masterXactId
    else deq
  | none => deq

/-- Two bits wide. -/
def nextMetaHazard : ℕ :=
  if s.metaWriteFire i then 1 else if s.metaHazard ≠ 0 then (s.metaHazard + 1) % 4 else 0

/-- One cycle. -/
def next : MSHR P c where
  state := s.nextState i
  acquireType := s.nextAcquireType i
  lineState := s.nextLineState i
  refillCount := s.nextRefillCount i
  req := if s.priFire i then i.reqBits else s.req
  rpq := (if s.rpqDeqReady i then s.rpq.tail else s.rpq) ++ s.rpqEnq i
  ackq := s.nextAckq i
  metaHazard := s.nextMetaHazard i

/-- Reset. What else the registers hold is arbitrary. -/
structure IsReset : Prop where
  state : s.state = .sInvalid
  rpq : s.rpq = []
  ackq : s.ackq = none
  metaHazard : s.metaHazard = 0

end MSHR

/-! ### `MSHRFile` -/

structure MSHRFile (P : DCachePolicy) (c : DCacheConfig) where
  mshr : Fin c.nmshr → MSHR P c
  sdqVal : Fin c.nsdq → Bool
  /-- The store data queue itself. -/
  sdq : Fin c.nsdq → ℕ
  /-- The register behind the read port of the queue. -/
  replaySdqId : Fin c.nsdq

/-- What the file sees in one cycle. -/
structure MSHRFileInput (P : DCachePolicy) where
  reqValid : Bool
  reqBits : MSHRReq P
  memReqReady : Bool
  metaReadReady : Bool
  metaWriteReady : Bool
  replayReady : Bool
  memFinishReady : Bool
  wbReqReady : Bool
  memGrant : Option (MemGrant P)

namespace MSHRFile

variable (s : MSHRFile P c) (i : MSHRFileInput P)

/-! ### The store data queue -/

/-- `sdq_alloc_id`. The encoder answers with the last slot if all are taken. -/
def sdqAllocId : Fin c.nsdq :=
  (priorityEncoder fun k => !s.sdqVal k).getD (Fin.ofNat _ (c.nsdq - 1))

def sdqRdy : Bool := !decide (∀ k, s.sdqVal k = true)

/-! ### Accepting a request -/

def idxMatch : Bool := orR fun j => (s.mshr j).idxMatch i.reqBits

/-- `Mux1H(idxMatch, tagList)`: the tags of the matching registers, or-ed together. -/
def matchingTag : ℕ :=
  (List.finRange c.nmshr).foldl
    (fun a j => if (s.mshr j).idxMatch i.reqBits then a ||| (s.mshr j).tag else a) 0

def tagMatch : Bool := decide (s.matchingTag i = i.reqBits.addr / 2 ^ c.untagbits)

def priRdy : Bool := orR fun j => (s.mshr j).reqPriRdy

def secRdy : Bool := orR fun j => (s.mshr j).reqSecRdy i.reqBits

/-- `io.req.ready`. -/
def reqReady : Bool := (if s.idxMatch i then s.tagMatch i && s.secRdy i else s.priRdy) && s.sdqRdy

def reqFire : Bool := i.reqValid && s.reqReady i

def sdqEnq : Bool := s.reqFire i && i.reqBits.cmd.isWrite

/-- `alloc_arb.io.out.ready`. -/
def allocReady : Bool := i.reqValid && s.sdqRdy && !s.idxMatch i

/-! ### The arbiters -/

/-- What register `j` sees. -/
def mshrInput (j : Fin c.nmshr) : MSHRInput P c where
  reqPriVal := Arbiter.inReady (fun j => (s.mshr j).reqPriRdy) (s.allocReady i) j
  reqSecVal := i.reqValid && s.sdqRdy && s.tagMatch i
  reqBits := i.reqBits
  reqSdqId := s.sdqAllocId
  memReqReady := Arbiter.inReady (fun j => (s.mshr j).memReqValid) i.memReqReady j
  metaReadReady := Arbiter.inReady (fun j => (s.mshr j).metaReadValid) i.metaReadReady j
  metaWriteReady := Arbiter.inReady (fun j => (s.mshr j).metaWriteValid) i.metaWriteReady j
  replayReady := Arbiter.inReady (fun j => (s.mshr j).replayValid) i.replayReady j
  memFinishReady := Arbiter.inReady (fun j => (s.mshr j).memFinishValid) i.memFinishReady j
  wbReqReady := Arbiter.inReady (fun j => (s.mshr j).wbReqValid) i.wbReqReady j
  reply := i.memGrant.filter fun g => decide (g.clientXactId = (j : ℕ))

/-- The replay at the port: the first register that has one, and the replay itself. -/
def replay : Option (Fin c.nmshr × Replay c) :=
  (priorityEncoder fun j => (s.mshr j).replayValid).bind fun j =>
    (s.mshr j).rpq.head?.map fun r =>
      (j, (s.mshr j).replayBits (s.mshrInput i j).metaReadReady r)

/-- `free_sdq`, with the slot that is freed. -/
def freeSdq : Option (Fin c.nsdq) :=
  if i.replayReady then
    ((s.replay i).filter fun r => r.2.cmd.isWrite).map fun r => r.2.sdqId
  else none

/-- `io.replay.bits.data`: what was read for the replay of the cycle before. -/
def replayData : ℕ := s.sdq s.replaySdqId

/-! ### The registers after a cycle -/

/-- One cycle. -/
def next : MSHRFile P c where
  mshr j := (s.mshr j).next (s.mshrInput i j)
  sdqVal k := s.sdqVal k && !decide (s.freeSdq i = some k) ||
    s.sdqEnq i && decide (k = s.sdqAllocId)
  sdq := if s.sdqEnq i then Function.update s.sdq s.sdqAllocId i.reqBits.data else s.sdq
  replaySdqId := (s.freeSdq i).getD s.replaySdqId

structure IsReset : Prop where
  mshr : ∀ j, (s.mshr j).IsReset
  sdqVal : ∀ k, s.sdqVal k = false

/-- The runs of the file. -/
def machine (P : DCachePolicy) (c : DCacheConfig) : Machine (MSHRFile P c) (MSHRFileInput P) :=
  Machine.clocked IsReset next

end MSHRFile

end Rocket

end RiscvSoc
