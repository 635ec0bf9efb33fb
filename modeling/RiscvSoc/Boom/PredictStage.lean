import RiscvSoc.Boom.BranchUnit
import RiscvSoc.Boom.DecodeStage
import RiscvSoc.Boom.Frontend
import RiscvSoc.Boom.RobPCs
import RiscvSoc.Lib.Bits

/-!
# From the front end to the branch unit

`Frontend`, the branch prediction stage, the decode stage with the core behind it, the table of row
addresses and the branch unit, wired together as `DatPath` wires them, with the program counter
selection of `boom/src/main/scala/dpath.scala`.

`RobUop` has only those fields of a micro-op that the core looks at. The others, the instruction and
its predictions, do not change after dispatch; they are kept here under the number of the micro-op
(`PredictStage.uops`).

A branch is issued, its row addresses are read in the same cycle, and it is in the branch unit one
cycle later. The outside picks the branch that is issued and gives the two operands. A micro-op that
is killed on its way is no longer among the unexecuted branches of the core, and the branch unit
finds nothing to execute.

## History

`PathLog` has the address of the last redirect and the instructions that entered the fetch buffer
since. A redirect comes from a misprediction, a flush, an exception or a return from one; a
prediction that moves the front end is none.
-/

namespace RiscvSoc

variable {c : BOOMConf} {n : ℕ}

/-- What the branch unit keeps of the branch that was issued in the last cycle. -/
structure ExeReg where
  seq : ℕ
  /-- `io.get_rob_pc`. -/
  currPc : BitVec 64
  nextVal : Bool
  nextPc : BitVec 64

structure PredictStage (c : BOOMConf) (n : ℕ) where
  front : Frontend c.decodeWidth
  dec : DecodeStage c Fetched n
  robPcHob : RobPCs c
  exeReg : Option ExeReg
  /-- The fields of a micro-op the core does not look at, by its number. -/
  uops : ℕ → Fetched

structure PredictInput (c : BOOMConf) where
  icacheHit : Bool
  data : Bank c → BitVec 32
  icacheValid : Bool
  pageFault : Bool
  btb : Option (Bank c × BitVec 43)
  /-- `bp2_reg_predictor_out.taken`. -/
  bhtTaken : Bool
  decode : Fetched → DecInst c
  /-- The rest of the core's inputs. -/
  core : CoreInput c
  pcrExcTarget : VAddr
  /-- The number of the branch that is issued. -/
  iss : Option ℕ
  rs1 : BitVec 64
  rs2 : BitVec 64

/-- The bundle that enters the fetch buffer. -/
def FrontendResp.bundle (r : FrontendResp c.decodeWidth) (bht : Bool) : FetchBundle c Fetched :=
  ⟨r.fetchMask bht, r.fetched bht⟩

namespace PredictStage

variable (s : PredictStage c n) (i : PredictInput c)

/-- `io.imem.resp`. It does not look at the request or at `ready`. -/
def resp : Option (FrontendResp c.decodeWidth) :=
  s.front.resp ⟨i.icacheHit, i.data, i.icacheValid, i.pageFault, i.btb, none, false⟩

/-! ### The branch unit -/

/-- The branch unit with the branch that was issued. -/
def unit (e : ExeReg) : BranchUnit :=
  ⟨s.uops e.seq, i.rs1, i.rs2, e.currPc, e.nextVal, e.nextPc⟩

/-- The branch in the branch unit, if it is not killed. -/
def executed : Option (RobUop c × BranchUnit) :=
  s.exeReg.bind fun e =>
    ((s.dec.core.brs.find? fun u => decide (u.seq = e.seq)).filter fun u =>
      (s.dec.core.brFilter u).isSome).map fun u => (u, s.unit i e)

/-- What the core is told. -/
def exe : Option (ℕ × Bool) :=
  s.exeReg.bind fun e =>
    (s.dec.core.brs.findIdx? fun u => decide (u.seq = e.seq)).map fun p =>
      (p, (s.unit i e).mispredict)

/-- `br_unit.take_pc`. -/
def brTakePc : Option BranchUnit := (s.executed i).bind fun x =>
  if x.2.mispredict then some x.2 else none

/-! ### The decode stage -/

def decInput : DecodeInput c Fetched where
  imemResp := (s.resp i).map fun r => r.bundle i.bhtTaken
  decode := i.decode
  core := { i.core with exe := s.exe i }

/-- What goes into the core. -/
abbrev coreInput : CoreInput c := s.dec.coreInput (s.decInput i)

/-- `FetchBuffer.io.enq.ready`. -/
def enqReady : Bool := s.dec.fetchBuffer.enqReady false (s.dec.queueInput (s.decInput i))

/-- The bundles that enter the fetch buffer. -/
def entered : List (FetchBundle c Fetched) := s.dec.entered (s.decInput i)

/-! ### The next program counter -/

/-- `com_sret`. -/
def comSret : Bool := orR fun w => s.dec.core.rob.willCommit w && (s.dec.core.rob.comUops w).isSret

/-- `flush_pc`. -/
def flushPc : BitVec 64 :=
  let w : Bank c := (priorityEncoder s.dec.core.rob.headVal).getD (Fin.ofNat _ (c.decodeWidth - 1))
  s.robPcHob.read s.dec.core.rob.head + BitVec.ofNat 64 (4 * w) +
    if s.dec.core.rob.exceptionThrown then 0 else 4

/-- The redirects that are no prediction, in the order of `if_pc_next`. -/
def redirect : Option VAddr :=
  if s.dec.core.rob.comException || s.comSret then some i.pcrExcTarget
  else if s.dec.core.rob.flushVal then some (s.flushPc.setWidth 44)
  else (s.brTakePc i).map fun u => u.redirect

/-- `bp2_take_pc && !if_stalled`, with the target. -/
def bp2TakePc : Option VAddr :=
  (s.resp i).bind fun r =>
    if !s.dec.core.mispredicts && r.takePc i.bhtTaken && s.enqReady i then
      some ((r.predTarget i.bhtTaken).setWidth 44)
    else none

/-- `io.imem.req`. -/
def req : Option VAddr := (s.redirect i).or (s.bp2TakePc i)

def frontInput : FrontendInput c.decodeWidth :=
  ⟨i.icacheHit, i.data, i.icacheValid, i.pageFault, i.btb, s.req i, s.enqReady i⟩

/-! ### Dispatch and issue -/

/-- What is dispatched keeps its other fields under its number. -/
def nextUops (q : ℕ) : Fetched :=
  match s.dec.fbundle (s.decInput i),
    (s.dec.core.disSlots (s.coreInput i)).find? fun w =>
      decide ((s.dec.core.disUops (s.coreInput i) w).seq = q) with
  | some b, some w => b.insts w
  | _, _ => s.uops q

/-- The write port of the table of row addresses. -/
def nextRobPcHob : RobPCs c :=
  match s.dec.fbundle (s.decInput i) with
  | some b =>
    if orR (s.dec.core.disMask (s.coreInput i)) then
      s.robPcHob.write s.dec.core.rob.tail (b.insts 0).pc
    else s.robPcHob
  | none => s.robPcHob

/-- `rob.io.get_pc`, for a micro-op. The adder of `next_val` is as wide as a row index. -/
def getPc (u : RobUop c) : ExeReg :=
  let x := robSlot (c := c) u.robIdx
  let pcs := s.robPcHob.read2 x.1
  let nextBank : Bank c :=
    (priorityEncoder fun w => (s.dec.core.rob.entry (x.1 + 1, w)).val).getD
      (Fin.ofNat _ (c.decodeWidth - 1))
  { seq := u.seq
    currPc := pcs.1 + BitVec.ofNat 64 (4 * x.2)
    nextVal :=
      decide ((x.1.val + 1) % 2 ^ Bits.log2Up c.numRobRows ≠ s.dec.core.rob.tail.val)
    nextPc := pcs.2 + BitVec.ofNat 64 (4 * nextBank) }

def nextExeReg : Option ExeReg :=
  i.iss.bind fun q => (s.dec.core.brs.find? fun u => decide (u.seq = q)).map s.getPc

end PredictStage

/-! ### The circuit -/

namespace PredictStage

variable [NeZero n] (s : PredictStage c n) (i : PredictInput c)

/-- One cycle. -/
def next : PredictStage c n where
  front := s.front.next (s.frontInput i)
  dec := s.dec.next (s.decInput i)
  robPcHob := s.nextRobPcHob i
  exeReg := s.nextExeReg i
  uops := s.nextUops i

/-- Reset: what the table of row addresses holds is arbitrary. -/
structure IsReset : Prop where
  front : s.front.IsReset
  dec : s.dec.IsReset
  exeReg : s.exeReg = none

/-! ### History -/

/-- The last redirect, and what entered the fetch buffer since. -/
structure PathLog where
  start : VAddr
  path : List Fetched

/-- The log goes on. -/
def nextLog (log : PathLog) : PathLog :=
  match s.redirect i with
  | some pc => ⟨discardLsb pc, []⟩
  | none => { log with path := log.path ++ (s.entered i).flatMap FetchBundle.valid }

end PredictStage

/-- The rows of the decode table for branches, jumps and returns, a target buffer that has the own
target of a direct branch or jump, and a core whose units answer only for what was executed. -/
structure PredictInput.Ok (s : PredictStage c n) (i : PredictInput c) : Prop where
  core : (s.coreInput i).Ok s.dec.core
  branches : ∀ f, (i.decode f).isBrOrJmp = Inst.isBrOrJmp f.inst ∧
    (i.decode f).isJal = Inst.isJal f.inst
  sret : ∀ f, (i.decode f).isSret = true → (i.decode f).isUnique = true
  btb : ∀ r, s.resp i = some r → r.BtbOk

namespace PredictStage

variable [NeZero n]

/-- The runs. -/
def machine (c : BOOMConf) (n : ℕ) [NeZero n] :
    Machine (PredictStage c n × PathLog) (PredictInput c) :=
  ((Machine.clocked IsReset next).observe ⟨startAddr, []⟩ nextLog).restrict fun x i => i.Ok x.1

/-! ### The instruction behind a micro-op -/

variable (s : PredictStage c n)

/-- The instructions that were fetched after a micro-op: younger ones in the reorder buffer, and
those that wait for dispatch. -/
def younger (u : RobUop c) : List Fetched :=
  ((s.dec.core.rob.window.filter fun v => decide (u.seq < v.seq)).map fun v => s.uops v.seq) ++
    s.dec.pending

/-- The address of the instruction that was fetched after a micro-op, or will be. -/
def follow (u : RobUop c) : VAddr := ((s.younger u).head?.map Fetched.addr).getD s.front.nextAddr

/-- A micro-op that is in the reorder buffer to stay: no branch or flush kills it in this cycle, and
it is not rolled back. -/
structure Survives (u : RobUop c) : Prop where
  mem : u ∈ s.dec.core.rob.window
  state : s.dec.core.rob.state ≠ .rollback
  noFlush : s.dec.core.rob.flushPipeline = false
  noKill : isKilledByBranch s.dec.core.brinfo u.brMask = false

end PredictStage

end RiscvSoc
