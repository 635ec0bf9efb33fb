import RiscvSoc.Boom.RegisterRead
import RiscvSoc.Boom.Wakeup

/-!
# The back end

The core and its issue unit with everything behind them, wired together as `DatPath` in
`boom/src/main/scala/dpath.scala` wires them: register read, the execution units, the bypass network
and the register file. What the core took from the outside before now comes from here: which
registers are woken up, whose busy bits are cleared, which branch is executed, and what each unit
can take.

A register is woken up twice at most. A write port wakes up what it writes. A bypassable micro-op
wakes up its destination as it is issued, so what waits for it can be issued one cycle later and
finds it in the ALU.

## What is left to the outside

Which load the load/store unit answers, and with what; whether the other half of a store is there
already; what the branch unit says about a branch; the program counter; and the CSR file. The issue
unit only passes on some fields of a micro-op; they are looked up by its number here.

## History

`BackendLog` notes which micro-ops were dispatched, the result of each, and where each one is. The
result of an ALU is noted in the cycle that computes it, any other in the cycle that writes it.
-/

namespace RiscvSoc

variable {c : BOOMConf} {N W : ℕ}

/-! ### Parameters and inputs -/

structure BackendConf (c : BOOMConf) (W : ℕ) where
  /-- Which micro-ops ask with high priority. -/
  hp : IssueUop c → Bool
  kinds : Fin W → ExeUnitKind
  mulDiv : MulDivConfig
  /-- `ENABLE_REGFILE_BYPASSING`. -/
  regfileBypassing : Bool

/-- What the back end is told about a decoded instruction. With it come facts about the rows of the
decode table; those of an illegal instruction are open. -/
structure ExeDec (d : DecInst c) extends IssueDec d where
  info : ExeInfo
  fuCode_eq : d.exception = false → info.kind ≠ .nop → fuCode = info.kind.fuCode
  sta_iff : d.exception = false → (uopc = .sta ↔ info.kind = .sta)
  not_std : uopc ≠ .std ∧ info.kind ≠ .std
  dst_iff : d.exception = false → (d.ldstRtype = .fix ↔ info.kind.hasDst = true)
  store_iff : d.exception = false → d.isMemSpecial = false → (d.isStore = true ↔ info.kind = .sta)
  bru_of_branch : d.exception = false → d.allocatesBrTag = true → info.kind.fuCode = FU_BRU
  busy_of_kind : d.exception = false → info.kind ≠ .nop →
    d.isSret = false ∧ d.isMemSpecial = false ∧ d.isFencei = false
  flush_of_nop : d.exception = false → info.kind = .nop →
    d.isSret = true ∨ syscall = true ∨ d.isMemSpecial = true ∨ d.flushOnCommit = true

/-- What the outside drives in one cycle. Of `core`, what the back end drives itself is not taken
from here. -/
structure BackendInput (c : BOOMConf) (W : ℕ) where
  core : CoreInput c
  decs : ∀ w, ExeDec (core.decInsts w)
  /-- The branch that is executed was mispredicted. -/
  mispredict : Bool
  /-- `sdq_val`, or `saq_val`, of the store whose half is executed. -/
  otherHalf : Fin W → Bool
  currPc : Fin W → Word
  pcrReadOut : Word
  memAnswer : Fin W → Option MemAnswer

/-! ### Registers -/

structure Backend (c : BOOMConf) (N W : ℕ) where
  front : CoreIssue c N
  /-- What the issue unit passes on, by the number of the micro-op. -/
  info : ℕ → ExeInfo
  /-- `exe_reg_uops` and the operands, and `exe_reg_valids` as the option around them. -/
  exeReg : Fin W → Option (ExeReq c)
  units : Fin W → ExeUnit c
  regfile : PReg c → Word

namespace Backend

section Wires

variable [NeZero W] (conf : BackendConf c W) (s : Backend c N W) (i : BackendInput c W)

/-- The micro-op in slot `k`. -/
def slotUop (k : Fin N) : ExeUop c :=
  ⟨(s.front.issue.slots k).slotUop, s.info (s.front.issue.slots k).slotUop.seq⟩

def unitInput (w : Fin W) : ExeUnitInput c where
  req := s.exeReg w
  brinfo := s.front.core.brinfo
  kill := s.front.core.rob.flushPipeline
  currPc := i.currPc w
  memAnswer := i.memAnswer w

/-- A micro-op anywhere in the back end is dropped in this cycle. -/
def drops (u : ExeUop c) : Bool :=
  s.front.core.rob.flushPipeline || isKilledByBranch s.front.core.brinfo u.brMask

/-! #### Writeback -/

/-- Port `j` of unit `w`: a read of the CSR file goes to the first port of the first unit. -/
def wbData (w : Fin W) (j : ℕ) (r : ExeResp c) : ExeResp c :=
  if w = 0 ∧ j = 0 ∧ r.uop.kind = .csr then { r with data := i.pcrReadOut } else r

/-- The write ports of unit `w` whose `valid` is up. -/
def portsOf (w : Fin W) : List (ExeResp c) :=
  (((s.units w).ports (conf.kinds w) (s.unitInput i w)).mapIdx
    fun j r => r.map (wbData i w j)).reduceOption

def responses : List (ExeResp c) := (List.finRange W).flatMap (s.portsOf conf i)

/-- The ports of the register file whose `wen` is up. -/
def writePorts : List (PReg c × Word) :=
  ((s.responses conf i).filter ExeResp.writes).map fun r => (r.uop.pdst, r.data)

/-- `bypasses`, the ports whose `valid` is up. -/
def bypasses : List (ExeUop c × Word) :=
  (List.finRange W).flatMap fun w =>
    if (conf.kinds w).hasAlu then (s.units w).bypass (conf.kinds w) (s.unitInput i w) else []

/-! #### What the core is told -/

/-- The branch in the branch unit, by its position. -/
def exeBranch : Option (ℕ × Bool) :=
  ((conf.kinds 0).aluReq (s.exeReg 0)).bind fun r =>
    if r.uop.allocatesBrTag then
      some (s.front.core.brs.findIdx fun b => decide (b.seq = r.uop.seq), i.mispredict)
    else none

/-- `lsu_clr_bsy_rob_idx`, and `lsu_clr_bsy_valid` as the option around it. -/
def lsuClrBsy : Option ℕ :=
  (List.finRange W).findSome? fun w => ((conf.kinds w).memReq (s.exeReg w)).bind fun r =>
    if !isKilledByBranch s.front.core.brinfo r.uop.brMask &&
        decide (r.uop.kind = .sta ∨ r.uop.kind = .std) && i.otherHalf w then some r.uop.robIdx
    else none

def frontInput (wakeups : List (PReg c)) : CoreIssueInput c W where
  core := { i.core with
    wbPdsts := wakeups
    wbRobIdxs := ((s.responses conf i).filter fun r => !r.uop.isStore).map fun r => r.uop.robIdx
    lsuClrBsy := s.lsuClrBsy conf i
    exe := s.exeBranch conf i }
  decs w := (i.decs w).toIssueDec
  fuTypes w := (s.units w).fuTypes (conf.kinds w) (decide (w = 0)) (s.exeReg w)

/-! #### Issue and wakeup -/

/-- The slot that is issued on port `w`. The selection does not look at the wakeups. -/
def iss (w : Fin W) : Option (Fin N) :=
  (s.front.issue.selection conf.hp (s.front.issueInput (s.frontInput conf i []))).iss w

/-- `iss_uops`, and `iss_valids` as the option around it. -/
def issUops (w : Fin W) : Option (ExeUop c) := (s.iss conf i w).map s.slotUop

def slowWakeups : List (PReg c) := (s.writePorts conf i).map Prod.fst

def fastWakeups : List (PReg c) :=
  ((List.finRange W).filter fun w => (conf.kinds w).hasAlu).filterMap fun w =>
    ((s.issUops conf i w).filter fun u =>
      decide (u.ldstRtype = .fix) && u.kind.bypassable).map fun u => u.pdst

def wakeups : List (PReg c) := s.slowWakeups conf i ++ s.fastWakeups conf i

def input : CoreIssueInput c W := s.frontInput conf i (s.wakeups conf i)

/-- What the core sees. -/
def coreInput : CoreInput c := s.front.coreInput (s.input conf i)

/-! #### Register read -/

/-- What is read for an operand. -/
def operand (u : ExeUop c) (o : Operand) : Word :=
  RegisterRead.bypassed (s.bypasses conf i) (u.lrsRtype o) (u.pop o)
    (RegisterFile.read conf.regfileBypassing s.regfile (s.writePorts conf i) (u.pop o))

/-! #### The registers after a cycle -/

def nextExeReg (w : Fin W) : Option (ExeReq c) :=
  (s.issUops conf i w).bind fun u =>
    if s.drops u then none
    else some ⟨u.resolve s.front.core.brinfo, s.operand conf i u .first, s.operand conf i u .second⟩

/-- The lane that dispatches micro-op `q`. -/
def laneOf (q : ℕ) : Option (Bank c) :=
  (s.front.core.disSlots (s.coreInput conf i)).find? fun w =>
    decide ((s.front.core.disUops (s.coreInput conf i) w).seq = q)

def nextInfo (q : ℕ) : ExeInfo :=
  match s.laneOf conf i q with
  | some w => (i.decs w).info
  | none => s.info q

/-- One cycle. -/
def next : Backend c N W where
  front := s.front.next conf.hp (s.input conf i)
  info := s.nextInfo conf i
  exeReg := s.nextExeReg conf i
  units w := ExeUnit.next conf.mulDiv (conf.kinds w) (s.units w) (s.unitInput i w)
  regfile := RegisterFile.next s.regfile (s.writePorts conf i)

end Wires

structure IsReset (s : Backend c N W) : Prop where
  front : s.front.IsReset
  exeReg : ∀ w, s.exeReg w = none
  units : ∀ w, (s.units w).IsReset

end Backend

/-! ### History -/

/-- Where a micro-op is: in a slot, in front of a unit, in a functional unit or nowhere. -/
inductive Stage (N W : ℕ)
  | slot (k : Fin N)
  | exe (w : Fin W)
  | alu (w : Fin W)
  | mulDiv (w : Fin W)
  | load (w : Fin W)
  | gone
  deriving DecidableEq

structure BackendLog (c : BOOMConf) (N W : ℕ) where
  wake : WakeLog c
  /-- The micro-ops that were dispatched, by number. -/
  dispatched : ℕ → Option (RobUop c)
  /-- The result of each micro-op that has one. -/
  produced : ℕ → Option Word
  /-- Where each half of a micro-op is. It stays where it was dropped. -/
  stage : ℕ × Bool → Stage N W

namespace BackendLog

variable (h : BackendLog c N W)

/-- Micro-op `q` was renamed to write register `p`. -/
def Writes (q : ℕ) (p : PReg c) : Prop :=
  ∃ u, h.dispatched q = some u ∧ u.needsPreg = true ∧ u.pdst = p

/-- Micro-op `q` is the last one before number `n` that was renamed to write register `p`. -/
structure LastWriter (n : ℕ) (p : PReg c) (q : ℕ) : Prop where
  lt : q < n
  writes : h.Writes q p
  last : ∀ q', q < q' → q' < n → ¬h.Writes q' p

end BackendLog

namespace Backend

section History

variable [NeZero W] (conf : BackendConf c W) (s : Backend c N W) (i : BackendInput c W)
  (h : BackendLog c N W)

/-- The result of what unit `w` has in its ALU. -/
def computes (w : Fin W) : List (ℕ × Word) :=
  (((conf.kinds w).aluReq (s.exeReg w)).filter fun r =>
    r.uop.kind.rfWen && decide (r.uop.kind ≠ .csr)).toList.map fun r =>
      (r.uop.seq, r.aluOut (i.currPc w))

/-- The results of this cycle. -/
def produces : List (ℕ × Word) :=
  (List.finRange W).flatMap (s.computes conf i) ++
    (((s.responses conf i).filter fun r => decide (r.uop.kind = .csr ∨ r.uop.kind = .mulDiv ∨
      r.uop.kind = .load)).map fun r => (r.uop.seq, r.data))

/-- The slot that a half is written to. -/
def entersSlot (x : ℕ × Bool) : Option (Fin N) :=
  (List.finRange N).find? fun k =>
    (s.front.issue.writer (s.front.issueInput (s.input conf i)) k).isSome &&
      decide (((s.next conf i).slotUop k).key = x)

/-- Where a half of a micro-op goes. -/
def nextStage (x : ℕ × Bool) : Stage N W :=
  match s.entersSlot conf i x with
  | some k => .slot k
  | none =>
    match h.stage x with
    | .slot k =>
      match (List.finRange W).find? fun w => decide (s.iss conf i w = some k) with
      | some w => .exe w
      | none => .slot k
    | .exe w =>
      if ((conf.kinds w).aluReq (s.exeReg w)).isSome then .alu w
      else if ((conf.kinds w).mulDivReq (s.exeReg w)).isSome then .mulDiv w
      else .load w
    | .mulDiv w =>
      if (s.units w).mulDiv.respValid && (s.units w).mulDivReady (conf.kinds w) (s.unitInput i w)
        then .gone else .mulDiv w
    | .load w =>
      if ((s.units w).waiting (s.unitInput i w)).any fun u => decide (u.key = x) then .load w
      else .gone
    | .alu _ | .gone => .gone

/-- The history sees one cycle. -/
def logNext : BackendLog c N W where
  wake := CoreIssue.logNext s.front (s.input conf i) h.wake
  dispatched q := match s.laneOf conf i q with
    | some w => some (s.front.core.disUops (s.coreInput conf i) w)
    | none => h.dispatched q
  produced q := (h.produced q).or
    (((s.produces conf i).find? fun x => decide (x.1 = q)).map Prod.snd)
  stage := s.nextStage conf i h

end History

end Backend

/-- The load/store unit calls a store done when it has the other half; that half does not wait in a
slot. -/
def BackendInput.Ok [NeZero W] (s : Backend c N W) (i : BackendInput c W) : Prop :=
  ∀ w r, i.otherHalf w = true → s.exeReg w = some r → ∀ k,
    (s.front.issue.slots k).slotValid = true →
      robSlot (c := c) (s.front.issue.slots k).slotUop.robIdx ≠ robSlot r.uop.robIdx

/-- The runs of the back end, and the history. -/
def Backend.machine [NeZero W] (conf : BackendConf c W) (N : ℕ) :
    Machine (Backend c N W × BackendLog c N W) (BackendInput c W) :=
  ((Machine.clocked IsReset (next conf)).observe
    ⟨⟨0, fun _ => none, fun _ => none⟩, fun _ => none, fun _ => none, fun _ => .gone⟩
    (logNext conf)).restrict fun s i => i.Ok s.1

end RiscvSoc
