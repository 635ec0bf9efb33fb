import Mathlib.Data.BitVec
import Mathlib.Logic.Function.Basic
import RiscvSoc.Boom.Branch
import RiscvSoc.Lib.Machine
import RiscvSoc.Uncore.MemTyp

/-!
# The load/store unit

`LoadStoreUnit` and `ForwardingAgeLogic` from `boom/src/main/scala/lsu.scala`, behind the address
unit `MemAddrCalcUnit` of `functional_unit.scala` that feeds it, one clock cycle at a time: the
wires of a cycle are functions of the registers and of the cycle's inputs, and `LSU.next` is what
the registers hold afterwards.

In a block of `when`s the later assignment wins. The bundle being dispatched comes first, so
`LSU.enq` is the fold over it; after it, each register lists its assignments from the last one of
the source to the first.

## Masks and numbers

A mask over the store queue is a predicate. Indices into the queues wrap around, as `WrapInc` does
for a power of two. A micro-op carries what the unit looks at.
-/

namespace RiscvSoc

variable {c : BOOMConf}

/-! ### Micro-ops -/

inductive Uopc
  | ld
  | sta
  | std
  | memSpecial
  | other
  deriving DecidableEq, Repr

/-- A set of entries of the store queue. -/
abbrev StMask (c : BOOMConf) : Type := Fin c.lsuEntries → Bool

structure MicroOp (c : BOOMConf) where
  uopc : Uopc
  isFence : Bool
  memTyp : MemTyp
  brMask : BrMask c
  ldqIdx : Fin c.lsuEntries
  stqIdx : Fin c.lsuEntries
  pdst : ℕ
  robIdx : ℕ

namespace MicroOp

/-- What `NullMicroOp` leaves of a micro-op. -/
def null (c : BOOMConf) : MicroOp c := ⟨.other, false, .x, fun _ => false, 0, 0, 0, 0⟩

variable (u : MicroOp c)

/-- `ctrl.is_load`, and the decoder's `is_load`. -/
def isLoad : Bool := decide (u.uopc = .ld)

/-- `ctrl.is_sta`. -/
def isSta : Bool := decide (u.uopc = .sta)

/-- `ctrl.is_std`. -/
def isStd : Bool := decide (u.uopc = .std)

end MicroOp

/-! ### Addresses -/

/-- `GenByteMask`: the bytes of a double word an access touches. -/
def genByteMask (addr : Word) (typ : MemTyp) : BitVec 8 :=
  match typ with
  | .b | .bu => 1#8 <<< (addr.extractLsb 2 0).toNat
  | .h | .hu => 3#8 <<< (2 * (addr.extractLsb 2 1).toNat)
  | .w | .wu => if addr.getLsbD 2 then 240#8 else 15#8
  | .d | .x => 255#8

/-- `LoadDataGenerator`. -/
def loadDataGenerator (data : Word) (typ : MemTyp) : Word :=
  match typ with
  | .d | .x => data
  | .w => (data.extractLsb 31 0).signExtend 64
  | .wu => (data.extractLsb 31 0).setWidth 64
  | .h => (data.extractLsb 15 0).signExtend 64
  | .hu => (data.extractLsb 15 0).setWidth 64
  | .b => (data.extractLsb 7 0).signExtend 64
  | .bu => (data.extractLsb 7 0).setWidth 64

/-- The double word an address lies in. -/
def dwordAddr (c : BOOMConf) (addr : Word) : BitVec (c.paddrBits - 3 + 1) :=
  addr.extractLsb c.paddrBits 3

/-! ### Inputs -/

/-- An address, or the data of a store. -/
structure ExeUnitResp (c : BOOMConf) where
  uop : MicroOp c
  data : Word

/-- One slot of the bundle being dispatched. -/
structure DecSlot (c : BOOMConf) where
  ldVal : Bool
  stVal : Bool
  uop : MicroOp c

/-- One slot of the bundle being committed. -/
structure CommitSlot where
  load : Bool
  store : Bool
  deriving DecidableEq, Repr

structure NackInfo (c : BOOMConf) where
  lsuIdx : Fin c.lsuEntries
  isload : Bool

/-- What the outside drives in one cycle. -/
structure LSUInput (c : BOOMConf) where
  /-- `io.dec_ld_vals`, `io.dec_st_vals` and `io.dec_uops`. -/
  dec : List (DecSlot c)
  /-- What the register-read stage hands to `MemAddrCalcUnit`, with the address it adds up. -/
  exeReq : Option (ExeUnitResp c)
  /-- `io.commit_load_mask` and `io.commit_store_mask`. -/
  commit : List CommitSlot
  memresp : Option (MicroOp c)
  brinfo : Option (BrResolutionInfo c)
  exception : Bool
  lsuMisspec : Bool
  nack : Option (NackInfo c)
  dmemReqReady : Bool
  dmemIsOrdered : Bool

namespace LSUInput

/-- A cycle in which nothing happens and the cache is ready. -/
def quiet : LSUInput c := ⟨[], none, [], none, none, false, false, none, true, false⟩

variable (i : LSUInput c)

/-- `MemAddrCalcUnit`: `io.exe_resp`, unless a branch kills the micro-op in this cycle. -/
def exeResp : Option (ExeUnitResp c) :=
  match i.exeReq with
  | some r =>
    if isKilledByBranch i.brinfo r.uop.brMask then none
    else some { r with uop := { r.uop with brMask := getNewBrMask i.brinfo r.uop.brMask } }
  | none => none

/-- A load address arrives. -/
def loadResp : Option (ExeUnitResp c) := i.exeResp.filter fun r => r.uop.isLoad

/-- A store address arrives. -/
def staResp : Option (ExeUnitResp c) := i.exeResp.filter fun r => r.uop.isSta

/-- The data of a store arrives. -/
def stdResp : Option (ExeUnitResp c) := i.exeResp.filter fun r => r.uop.isStd

/-- Everything is thrown out of the load queue. -/
def flush : Bool := i.exception || i.lsuMisspec

/-- `io.brinfo.valid && io.brinfo.mispredict`. -/
def mispredict : Option (BrResolutionInfo c) := i.brinfo.filter fun b => b.mispredict

/-- A branch was predicted right: what is left of a mask that contains it. -/
def clearedMask (m : BrMask c) : Option (BrMask c) :=
  match i.brinfo with
  | some b => if !b.mispredict && maskMatch b.mask m then some fun t => m t && !b.mask t else none
  | none => none

end LSUInput

/-! ### Registers -/

structure LAQEntry (c : BOOMConf) where
  addrVal : Bool
  addr : Word
  allocated : Bool
  executed : Bool
  succeeded : Bool
  failure : Bool
  uop : MicroOp c
  stDepMask : StMask c
  yngStIdx : Fin c.lsuEntries
  forwardedStdVal : Bool
  forwardedStqIdx : Fin c.lsuEntries

structure STQEntry (c : BOOMConf) where
  saqVal : Bool
  saqAddr : Word
  sdqVal : Bool
  sdqData : Word
  entryVal : Bool
  executed : Bool
  succeeded : Bool
  committed : Bool
  uop : MicroOp c

structure LSU (c : BOOMConf) where
  laq : Fin c.lsuEntries → LAQEntry c
  stq : Fin c.lsuEntries → STQEntry c
  laqHead : Fin c.lsuEntries
  laqTail : Fin c.lsuEntries
  stqHead : Fin c.lsuEntries
  stqTail : Fin c.lsuEntries
  stqCommitHead : Fin c.lsuEntries
  liveStoreMask : StMask c
  rMemreqKill : Bool
  rForwardStdVal : Bool
  rForwardStdIdx : Fin c.lsuEntries
  rMemUop : MicroOp c
  rSdqValForForwarding : Bool
  rWbUop : MicroOp c
  /-- `Reg(next=r_forward_std_val)`. -/
  rWbForwardStdVal : Bool
  rForwardData : Word

namespace LSU

variable (s : LSU c) (i : LSUInput c)

/-! ### Dispatch -/

/-- The entry at the head of the store queue is done. -/
def clearStore : Bool :=
  let e := s.stq s.stqHead
  e.entryVal && e.committed && if e.uop.isFence then i.dmemIsOrdered else e.succeeded

/-- The queues while a bundle is being entered. -/
structure Enq (c : BOOMConf) where
  laq : Fin c.lsuEntries → LAQEntry c
  stq : Fin c.lsuEntries → STQEntry c
  ldEnqIdx : Fin c.lsuEntries
  stEnqIdx : Fin c.lsuEntries
  nextLiveStoreMask : StMask c

def Enq.load (e : Enq c) (uop : MicroOp c) : Enq c :=
  { e with
    laq := Function.update e.laq e.ldEnqIdx { e.laq e.ldEnqIdx with
      uop := uop
      stDepMask := e.nextLiveStoreMask
      yngStIdx := e.stEnqIdx
      allocated := true
      executed := false
      succeeded := false
      failure := false
      forwardedStdVal := false }
    ldEnqIdx := e.ldEnqIdx + 1 }

def Enq.store (e : Enq c) (uop : MicroOp c) : Enq c :=
  { e with
    stq := Function.update e.stq e.stEnqIdx { e.stq e.stEnqIdx with
      uop := uop
      entryVal := true
      saqVal := false
      sdqVal := false
      executed := false
      succeeded := false
      committed := false }
    stEnqIdx := e.stEnqIdx + 1
    nextLiveStoreMask := Function.update e.nextLiveStoreMask e.stEnqIdx true }

def Enq.slot (e : Enq c) (d : DecSlot c) : Enq c :=
  let e := if d.ldVal then e.load d.uop else e
  if d.stVal then e.store d.uop else e

/-- The queues before a bundle is entered: a store that is done leaves the masks. -/
def enqStart : Enq c where
  laq j :=
    if s.clearStore i then
      { s.laq j with stDepMask := Function.update (s.laq j).stDepMask s.stqHead false }
    else s.laq j
  stq := s.stq
  ldEnqIdx := s.laqTail
  stEnqIdx := s.stqTail
  nextLiveStoreMask :=
    if s.clearStore i then Function.update s.liveStoreMask s.stqHead false else s.liveStoreMask

/-- The queues after a bundle is entered. -/
def enq : Enq c := i.dec.foldl Enq.slot (s.enqStart i)

/-! ### Load selection -/

def reqFireLoadFast : Bool := i.loadResp.isSome

/-- Only the load at the head of the queue is woken up. -/
def reqFireLoadSleeper : Bool :=
  let e := s.laq s.laqHead
  e.addrVal && e.allocated && !e.executed && !e.failure

/-- Some load goes to memory. -/
def fireLoad : Bool := reqFireLoadFast i || s.reqFireLoadSleeper

def ldIssIdx : Fin c.lsuEntries :=
  match i.loadResp with
  | some r => r.uop.ldqIdx
  | none => s.laqHead

def lAddr : Word :=
  match i.loadResp with
  | some r => r.data
  | none => (s.laq s.laqHead).addr

def lUop : MicroOp c :=
  match i.loadResp with
  | some r => r.uop
  | none => (s.laq s.laqHead).uop

def readMask : BitVec 8 := genByteMask (s.lAddr i) (s.lUop i).memTyp

/-! ### Forwarding -/

/-- The load depends on store `k`. -/
def stDep (k : Fin c.lsuEntries) : Bool :=
  (s.stq k).entryVal && (s.laq (s.ldIssIdx i)).stDepMask k

def writeMask (k : Fin c.lsuEntries) : BitVec 8 :=
  genByteMask (s.stq k).saqAddr (s.stq k).uop.memTyp

def dwordAddrMatches (k : Fin c.lsuEntries) : Bool :=
  s.stDep i k && (s.stq k).saqVal &&
    decide (dwordAddr c (s.stq k).saqAddr = dwordAddr c (s.lAddr i))

/-- The load and store `k` share a byte of the double word. -/
def bytesOverlap (k : Fin c.lsuEntries) : Bool := decide (s.readMask i &&& s.writeMask k ≠ 0#8)

def addrConflicts (k : Fin c.lsuEntries) : Bool :=
  s.bytesOverlap i k && s.dwordAddrMatches i k || s.stDep i k && (s.stq k).uop.isFence

def forwardingMatches (k : Fin c.lsuEntries) : Bool :=
  decide (s.readMask i = s.writeMask k) && !(s.stq k).uop.isFence && s.dwordAddrMatches i k

def forceLdToSleep : Bool := orR fun k =>
  s.stDep i k && (s.stq k).uop.isFence ||
    s.dwordAddrMatches i k && decide ((s.lUop i).memTyp ≠ (s.stq k).uop.memTyp) &&
      s.bytesOverlap i k

/-- `ForwardingAgeLogic`: the last match below the youngest store, else the last match. -/
def forwardingAgeLogic (addrMatches : StMask c) (youngestStIdx : Fin c.lsuEntries) :
    Option (Fin c.lsuEntries) :=
  (lastEncoder fun k => addrMatches k && decide (k < youngestStIdx)) <|> lastEncoder addrMatches

/-- `forwarding_val` and `forwarding_idx`. -/
def forwarding : Option (Fin c.lsuEntries) :=
  forwardingAgeLogic (s.forwardingMatches i) (s.laq (s.ldIssIdx i)).yngStIdx

/-- The store that load `j` is marked to take its data from. -/
def forwardedFrom (j : Fin c.lsuEntries) : Option (Fin c.lsuEntries) :=
  if s.fireLoad i && i.dmemReqReady && decide ((s.lUop i).ldqIdx = j) then s.forwarding i else none

/-- The load will be answered by the store queue. -/
def forwards : Bool :=
  s.fireLoad i && (s.forwarding i).isSome && !s.forceLdToSleep i && i.dmemReqReady

def memNewBrMask : BrMask c := getNewBrMask i.brinfo s.rMemUop.brMask

def wbForwardingKill : Bool := isKilledByBranch i.brinfo s.rWbUop.brMask

/-- `io.forward_val`; `io.forward_uop` is `rWbUop` and `io.forward_data` is `rForwardData`. -/
def forwardVal : Bool := s.rWbForwardStdVal && !s.wbForwardingKill i && s.rSdqValForForwarding

/-! ### Memory requests -/

def reqFireStore : Bool :=
  let e := s.stq s.stqHead
  e.entryVal && e.committed && !e.executed && !e.uop.isFence

def memreqVal : Bool := s.fireLoad i || s.reqFireStore

/-- `io.memreq_addr`, `io.memreq_wdata` and `io.memreq_uop` of a request. -/
def memreq : Option (Word × Word × MicroOp c) :=
  let e := s.stq s.stqHead
  if s.fireLoad i then some (s.lAddr i, 0, s.lUop i)
  else if s.reqFireStore then some (e.saqAddr, e.sdqData, e.uop)
  else none

/-- Load `j` is issued to memory. -/
def loadIssues (j : Fin c.lsuEntries) : Bool := s.fireLoad i && decide (j = s.ldIssIdx i)

/-- Store `k` is issued to memory. -/
def storeIssues (k : Fin c.lsuEntries) : Bool :=
  !s.fireLoad i && s.reqFireStore && decide (k = s.stqHead)

/-! ### Ordering failures -/

def laqIsExecuting (j : Fin c.lsuEntries) : Bool :=
  s.memreqVal i && !s.reqFireStore && i.dmemReqReady && decide (j = s.ldIssIdx i)

def ldMask (j : Fin c.lsuEntries) : BitVec 8 := genByteMask (s.laq j).addr (s.laq j).uop.memTyp

/-- `Cat(x < base, x)`, the age of a store seen from store `base`. -/
def catAge (base x : Fin c.lsuEntries) : ℕ := (if x < base then c.lsuEntries else 0) + x

/-- The load got its data from a store that is not older than store `k`. -/
def forwardedPast (j k : Fin c.lsuEntries) : Bool :=
  let e := s.laq j
  e.forwardedStdVal && !(decide (e.forwardedStqIdx ≠ k) &&
    decide (catAge k e.yngStIdx < catAge k e.forwardedStqIdx))

/-- The store address `r` arrives and load `j` should have waited for it. -/
def failsOn (r : ExeUnitResp c) (j : Fin c.lsuEntries) : Bool :=
  let e := s.laq j
  e.stDepMask r.uop.stqIdx &&
    if r.uop.isFence && e.allocated && e.addrVal && e.executed then true
    else decide (dwordAddr c r.data = dwordAddr c e.addr) && e.allocated && e.addrVal &&
      (e.executed || s.laqIsExecuting i j) &&
      (decide (genByteMask r.data r.uop.memTyp &&& s.ldMask j ≠ 0#8) &&
        !s.forwardedPast j r.uop.stqIdx)

def failedLoads (j : Fin c.lsuEntries) : Bool :=
  match i.staResp with
  | some r => s.failsOn i r j
  | none => false

def ldoXcptVal : Bool := orR (s.failedLoads i)

/-- The oldest load that failed. -/
def oldestFailed : Option (Fin c.lsuEntries) :=
  priorityEncoder (fun j => s.failedLoads i j && decide (s.laqHead ≤ j)) <|>
    priorityEncoder (s.failedLoads i)

/-- `io.ldo_xcpt_val` and `io.ldo_xcpt_uop`. -/
def ldoXcpt : Option (MicroOp c) := (s.oldestFailed i).map fun j => (s.laq j).uop

/-! ### Branches, commit and nacks -/

def ldBrKilled (j : Fin c.lsuEntries) : Bool :=
  isKilledByBranch i.brinfo (s.laq j).uop.brMask && (s.laq j).allocated

def stBrKilled (k : Fin c.lsuEntries) : Bool :=
  isKilledByBranch i.brinfo (s.stq k).uop.brMask && (s.stq k).entryVal

def stExcKilled (k : Fin c.lsuEntries) : Bool := i.flush && !(s.stq k).committed

/-- The entries from `h` on that a commit bundle takes, and the head after them. -/
def takeFrom {n : ℕ} [NeZero n] (h : Fin n) : List Bool → List (Fin n) × Fin n
  | [] => ([], h)
  | true :: l => (h :: (takeFrom (h + 1) l).1, (takeFrom (h + 1) l).2)
  | false :: l => takeFrom h l

def committedLoads : List (Fin c.lsuEntries) × Fin c.lsuEntries :=
  takeFrom s.laqHead (i.commit.map (·.load))

def committedStores : List (Fin c.lsuEntries) × Fin c.lsuEntries :=
  takeFrom s.stqCommitHead (i.commit.map (·.store))

/-- A load that was killed in the cache and not answered by the store queue must be sent again. -/
def clrLd : Bool :=
  match i.nack with
  | some n => n.isload &&
      (!s.rWbForwardStdVal || !s.wbForwardingKill i && !s.rSdqValForForwarding)
  | none => false

def ldNacked (j : Fin c.lsuEntries) : Bool :=
  s.clrLd i && decide ((i.nack.map (·.lsuIdx)) = some j)

def stNacked (k : Fin c.lsuEntries) : Bool :=
  match i.nack with
  | some n => !n.isload && decide (n.lsuIdx = k)
  | none => false

/-- `clear_store`, for the entry that is cleared. -/
def cleared (k : Fin c.lsuEntries) : Bool := s.clearStore i && decide (k = s.stqHead)

/-- The address of load `j` arrives. -/
def loadArrives (j : Fin c.lsuEntries) : Option (ExeUnitResp c) :=
  i.loadResp.filter fun r => decide (r.uop.ldqIdx = j)

/-! ### The registers after a cycle -/

def nextLaq (j : Fin c.lsuEntries) : LAQEntry c :=
  let e := (s.enq i).laq j
  let committed := decide (j ∈ (s.committedLoads i).1)
  { addrVal :=
      if i.flush then false
      else if committed then false
      else if s.ldBrKilled i j then false
      else if (loadArrives i j).isSome then true
      else e.addrVal
    addr :=
      if committed then 0
      else match loadArrives i j with
        | some r => r.data
        | none => e.addr
    allocated :=
      if i.flush then false
      else if committed then false
      else if s.ldBrKilled i j then false
      else e.allocated
    executed :=
      if i.flush then false
      else if s.ldNacked i j then false
      else if committed then false
      else if s.failedLoads i j then false
      else if s.loadIssues i j then true
      else e.executed
    succeeded :=
      if committed then false
      else if s.failedLoads i j then false
      else if decide ((i.memresp.filter (·.isLoad)).map (·.ldqIdx) = some j) then true
      else e.succeeded
    failure :=
      if committed then false
      else if s.failedLoads i j then true
      else if s.loadIssues i j then false
      else e.failure
    uop := { e.uop with
      pdst := match loadArrives i j with
        | some r => r.uop.pdst
        | none => e.uop.pdst
      brMask :=
        if committed then fun _ => false
        else if s.ldBrKilled i j then fun _ => false
        else if (s.laq j).allocated then
          (i.clearedMask (s.laq j).uop.brMask).getD e.uop.brMask
        else e.uop.brMask }
    stDepMask := e.stDepMask
    yngStIdx := e.yngStIdx
    forwardedStdVal :=
      if committed then false
      else if (s.forwardedFrom i j).isSome then true
      else e.forwardedStdVal
    forwardedStqIdx := (s.forwardedFrom i j).getD e.forwardedStqIdx }

/-- The store `k` that `r` belongs to. -/
def arrivesAt (r : Option (ExeUnitResp c)) (k : Fin c.lsuEntries) : Option (ExeUnitResp c) :=
  r.filter fun r => decide (r.uop.stqIdx = k)

def nextStq (k : Fin c.lsuEntries) : STQEntry c :=
  let e := (s.enq i).stq k
  { saqVal :=
      if s.stExcKilled i k then false
      else if s.cleared i k then false
      else if s.stBrKilled i k then false
      else if (arrivesAt i.staResp k).isSome then true
      else e.saqVal
    saqAddr :=
      if s.cleared i k then 0
      else match arrivesAt i.staResp k with
        | some r => r.data
        | none => e.saqAddr
    sdqVal :=
      if s.stExcKilled i k then false
      else if s.cleared i k then false
      else if s.stBrKilled i k then false
      else if (arrivesAt i.stdResp k).isSome then true
      else e.sdqVal
    sdqData := match arrivesAt i.stdResp k with
      | some r => r.data
      | none => e.sdqData
    entryVal :=
      if s.stExcKilled i k then false
      else if s.cleared i k then false
      else if s.stBrKilled i k then false
      else e.entryVal
    executed :=
      if stNacked i k then false
      else if s.cleared i k then false
      else if s.storeIssues i k then true
      else e.executed
    succeeded :=
      if s.cleared i k then false
      else if decide ((i.memresp.filter (!·.isLoad)).map (·.stqIdx) = some k) then true
      else e.succeeded
    committed :=
      if s.cleared i k then false
      else if decide (k ∈ (s.committedStores i).1) then true
      else e.committed
    uop := { e.uop with
      brMask :=
        if s.cleared i k then fun _ => false
        else if s.stBrKilled i k then fun _ => false
        else if (s.stq k).entryVal then
          (i.clearedMask (s.stq k).uop.brMask).getD e.uop.brMask
        else e.uop.brMask } }

/-- One cycle. -/
def next : LSU c where
  laq := s.nextLaq i
  stq := s.nextStq i
  laqHead := if i.flush then 0 else (s.committedLoads i).2
  laqTail :=
    if i.flush then 0
    else match i.mispredict with
      | some b => b.ldqIdx
      | none => (s.enq i).ldEnqIdx
  stqHead := if s.clearStore i then s.stqHead + 1 else s.stqHead
  stqTail :=
    if i.flush then s.stqCommitHead
    else match i.mispredict with
      | some b => b.stqIdx
      | none => (s.enq i).stEnqIdx
  stqCommitHead := (s.committedStores i).2
  liveStoreMask k := (s.enq i).nextLiveStoreMask k && !s.stBrKilled i k && !s.stExcKilled i k
  rMemreqKill := s.fireLoad i && orR (s.addrConflicts i)
  rForwardStdVal := if isKilledByBranch i.brinfo s.rMemUop.brMask then false else s.forwards i
  rForwardStdIdx := (s.forwarding i).getD 0
  rMemUop := s.lUop i
  rSdqValForForwarding := (s.stq s.rForwardStdIdx).sdqVal
  rWbUop := { s.rMemUop with brMask := s.memNewBrMask i }
  rWbForwardStdVal := s.rForwardStdVal
  rForwardData := loadDataGenerator (s.stq s.rForwardStdIdx).sdqData s.rMemUop.memTyp

/-! ### Other outputs -/

/-- `io.lsu_clr_bsy_valid` and `io.lsu_clr_bsy_rob_idx`: a store has its address and its data. -/
def lsuClrBsy : Option ℕ :=
  (i.exeResp.filter fun r => r.uop.isSta && (s.stq r.uop.stqIdx).sdqVal ||
    r.uop.isStd && (s.stq r.uop.stqIdx).saqVal).map (·.uop.robIdx)

def laqFull : Bool := orR (n := c.decodeWidth) fun w =>
  decide (s.laqTail + Fin.ofNat _ w = s.laqHead) && orR fun j => (s.laq j).allocated

def stqFull : Bool := orR (n := c.decodeWidth) fun w =>
  decide (s.stqTail + Fin.ofNat _ (w + 1) = s.stqHead)

def laqEmpty : Bool := decide (s.laqTail = s.laqHead)

def stqEmpty : Bool := decide (s.stqTail = s.stqHead)

def lsuFenceiRdy : Bool := s.stqEmpty && i.dmemIsOrdered

/-! ### Reset -/

/-- Reset: the queues are empty, and every other register has any value. -/
structure IsReset : Prop where
  laqHead : s.laqHead = 0
  laqTail : s.laqTail = 0
  stqHead : s.stqHead = 0
  stqTail : s.stqTail = 0
  stqCommitHead : s.stqCommitHead = 0
  addrVal : ∀ j, (s.laq j).addrVal = false
  allocated : ∀ j, (s.laq j).allocated = false
  executed : ∀ j, (s.laq j).executed = false
  failure : ∀ j, (s.laq j).failure = false
  saqVal : ∀ k, (s.stq k).saqVal = false
  sdqVal : ∀ k, (s.stq k).sdqVal = false
  entryVal : ∀ k, (s.stq k).entryVal = false
  liveStoreMask : ∀ k, s.liveStoreMask k = false
  rMemreqKill : s.rMemreqKill = false
  rForwardStdVal : s.rForwardStdVal = false

/-- The unit after reset, every other register cleared. -/
def reset (c : BOOMConf) : LSU c where
  laq _ := ⟨false, 0, false, false, false, false, .null c, fun _ => false, 0, false, 0⟩
  stq _ := ⟨false, 0, false, 0, false, false, false, false, .null c⟩
  laqHead := 0
  laqTail := 0
  stqHead := 0
  stqTail := 0
  stqCommitHead := 0
  liveStoreMask _ := false
  rMemreqKill := false
  rForwardStdVal := false
  rForwardStdIdx := 0
  rMemUop := .null c
  rSdqValForForwarding := false
  rWbUop := .null c
  rWbForwardStdVal := false
  rForwardData := 0

theorem isReset_reset (c : BOOMConf) : (reset c).IsReset where
  laqHead := rfl
  laqTail := rfl
  stqHead := rfl
  stqTail := rfl
  stqCommitHead := rfl
  addrVal _ := rfl
  allocated _ := rfl
  executed _ := rfl
  failure _ := rfl
  saqVal _ := rfl
  sdqVal _ := rfl
  entryVal _ := rfl
  liveStoreMask _ := rfl
  rMemreqKill := rfl
  rForwardStdVal := rfl

/-- The circuit. -/
def machine (c : BOOMConf) : Machine (LSU c) (LSUInput c) := .clocked IsReset next

end LSU

end RiscvSoc
