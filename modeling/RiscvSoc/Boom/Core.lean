import RiscvSoc.Boom.RenameBundle
import RiscvSoc.Boom.RobWindow
import RiscvSoc.Lib.Machine

/-!
# The core from decode to commit

The parts of `boom/src/main/scala/dpath.scala` that decide where a micro-op goes: the stall logic of
the decode stage, `BranchMaskGenerationLogic` of `decode.scala`, `RenameStage`, `Rob` and the branch
unit of `functional_unit.scala`, wired together as `DatPath` wires them.

What happens to a micro-op between dispatch and writeback is left to the outside, except for
branches. The issue window, the register-read stage and the execute stage all treat a branch the
same way: a mispredicted older branch or a pipeline flush removes it, any other resolution takes a
tag out of its mask. So the branches on their way are one list here, and the outside picks the one
the branch unit executes.

## History

`Core` carries history variables next to its registers: how many micro-ops were dispatched, which
of them were committed, killed or rolled back, and the map table as it stood after each of them was
renamed. No register depends on them.
-/

namespace RiscvSoc

variable {c : BOOMConf}

/-! ### Inputs -/

/-- A decoded instruction. Its branch tag and mask are those of `BranchMaskGenerationLogic`. Two
facts about every row of the decode table come with it. The default row leaves these signals open,
and its instructions raise an exception. -/
structure DecInst (c : BOOMConf) extends DecUop c where
  isSret : Bool
  isMemSpecial : Bool
  isFencei : Bool
  exception : Bool
  excCause : ℕ
  isStore : Bool
  isLoad : Bool
  isUnique : Bool
  flushOnCommit : Bool
  unique_of_flush : exception = false → flushOnCommit = true → isUnique = true
  busy_of_branch : exception = false → isBrOrJmp = true → isJal = false →
    isSret = false ∧ isMemSpecial = false ∧ isFencei = false

/-- What the outside drives in one cycle. -/
structure CoreInput (c : BOOMConf) where
  decValids : Bank c → Bool
  decInsts : Bank c → DecInst c
  disInstCanProceed : Bank c → Bool
  laqFull : Bool
  stqFull : Bool
  lsuFenceiRdy : Bool
  ldqIdx : Bank c → Fin c.lsuEntries
  stqIdx : Bank c → Fin c.lsuEntries
  wbPdsts : List (PReg c)
  wbRobIdxs : List ℕ
  lsuClrBsy : Option ℕ
  memXcpt : Option (ℕ × Bool)
  ldoXcpt : Option ℕ
  /-- The branch that is executed, by its position, and whether it was mispredicted. -/
  exe : Option (ℕ × Bool)

/-! ### Registers -/

structure Core (c : BOOMConf) where
  rob : Rob c
  ren : RenameStage c
  branchMask : BrMask c
  /-- The branches that are not executed yet. -/
  brs : List (RobUop c)
  /-- The registers behind `io.br_unit.brinfo`: the branch, and `mispredict`. -/
  brReg : Option (RobUop c × Bool)
  /-- History: how many micro-ops were dispatched. -/
  count : ℕ
  /-- History: the micro-ops that committed, that a branch killed and that were rolled back. -/
  committed : List (RobUop c)
  killed : List (RobUop c)
  rolledBack : List (RobUop c)
  /-- History: the map table after the micro-op with a given number was renamed. -/
  renamed : ℕ → LReg → PReg c

namespace Core

variable (s : Core c) (i : CoreInput c)

/-- The mask with one tag. -/
def oneHot (t : Fin c.maxBrCount) : BrMask c := fun t' => decide (t' = t)

/-- What the registers of the branch unit say about a branch. -/
def brinfoOf (r : RobUop c × Bool) : BrResolutionInfo c where
  mispredict := r.2
  mask := oneHot r.1.brTag
  tag := r.1.brTag
  exeMask := r.1.brMask
  robIdx := r.1.robIdx
  ldqIdx := r.1.ldqIdx
  stqIdx := r.1.stqIdx

/-- `io.br_unit.brinfo`. -/
def brinfo : Option (BrResolutionInfo c) := s.brReg.map brinfoOf

/-- `brinfo.mispredict`. -/
def mispredicts : Bool := s.brinfo.any fun b => b.mispredict

/-- `rename_stage.io.kill`. -/
def kill : Bool := s.mispredicts || s.rob.flushPipeline

/-! ### The decode stage -/

/-- What rename is fed, once it is known which slots go ahead and what they are. -/
def renInputOf (decMask : Bank c → Bool) (decUops : Bank c → DecUop c) :
    RenameInput c c.decodeWidth where
  kill := s.kill
  decMask := decMask
  decUops := decUops
  brinfo := s.brinfo
  disInstCanProceed := i.disInstCanProceed
  wbPdsts := i.wbPdsts
  comValids := s.rob.willCommit
  comUops w := (s.rob.comUops w).toRenUop
  comRbkValids := s.rob.comRbkValids

/-- `ren_insts_can_proceed`. -/
def instCanProceed (w : Bank c) : Bool :=
  s.ren.instCanProceed (s.renInputOf i (fun _ => false) fun w => (i.decInsts w).toDecUop) w

/-- `io.is_branch` of the branch mask logic. -/
def isBranch (w : Bank c) : Bool := i.decValids w && (i.decInsts w).allocatesBrTag

/-- The values of `curr_br_mask` and of `dec_stall_next_inst` between two turns of the loops. -/
structure DecTurn (c : BOOMConf) where
  currBrMask : BrMask c
  stallNextInst : Bool

/-- `new_br_tag`: the lowest tag that is not taken. -/
def newBrTag (m : BrMask c) : Fin c.maxBrCount := (priorityEncoder fun t => !m t).getD 0

/-- `io.is_full` of the branch mask logic. -/
def branchMaskFull (t : DecTurn c) (w : Bank c) : Bool :=
  decide (∀ tag, t.currBrMask tag = true) && isBranch i w

/-- `stall_me`. -/
def stallMe (t : DecTurn c) (w : Bank c) : Bool :=
  !s.instCanProceed i w || (i.decValids w && (i.decInsts w).isUnique && !s.rob.empty) ||
    !s.rob.ready || i.laqFull || i.stqFull || branchMaskFull i t w || s.mispredicts ||
    s.rob.flushPipeline || t.stallNextInst ||
    (i.decValids w && (i.decInsts w).isFencei && !i.lsuFenceiRdy)

/-- `dec_mask`. -/
def goesAhead (t : DecTurn c) (w : Bank c) : Bool := i.decValids w && !s.stallMe i t w

/-- `io.will_fire` of the branch mask logic, which is `dis_mask`. -/
def willFire (t : DecTurn c) (w : Bank c) : Bool :=
  s.goesAhead i t w && s.instCanProceed i w && !s.kill

/-- The variables before turn `k`. -/
def turn : ℕ → DecTurn c
  | 0 => ⟨s.branchMask, false⟩
  | k + 1 =>
    let t := turn k
    if h : k < c.decodeWidth then
      let w : Bank c := ⟨k, h⟩
      { currBrMask :=
          if isBranch i w && s.willFire i t w then
            Function.update t.currBrMask (newBrTag t.currBrMask) true
          else t.currBrMask
        stallNextInst := s.stallMe i t w || (i.decValids w && (i.decInsts w).isUnique) }
    else t

def decMask (w : Bank c) : Bool := s.goesAhead i (s.turn i w) w

def decUops (w : Bank c) : DecUop c :=
  { (i.decInsts w).toDecUop with
    brTag := newBrTag (s.turn i w).currBrMask
    brMask := getNewBrMask s.brinfo (s.turn i w).currBrMask }

/-! ### Rename and dispatch -/

def renInput : RenameInput c c.decodeWidth := s.renInputOf i (s.decMask i) (s.decUops i)

/-- `dis_mask`. -/
def disMask (w : Bank c) : Bool := s.ren.renMask (s.renInput i) w

/-- The slots that are dispatched. -/
def disSlots : List (Bank c) := (List.finRange c.decodeWidth).filter (s.disMask i)

/-- `dis_uops`. -/
def disUops (w : Bank c) : RobUop c :=
  let u := s.ren.renUops (s.renInput i) w
  let d := i.decInsts w
  { u with
    brMask := getNewBrMask s.brinfo u.brMask
    isSret := d.isSret
    isMemSpecial := d.isMemSpecial
    isFencei := d.isFencei
    exception := d.exception
    excCause := d.excCause
    isStore := d.isStore
    isLoad := d.isLoad
    isUnique := d.isUnique
    flushOnCommit := d.flushOnCommit
    robIdx := RobSlot.idx (s.rob.tail, w)
    ldqIdx := i.ldqIdx w
    stqIdx := i.stqIdx w
    seq := s.count + (s.disSlots i).idxOf w }

def robInput : RobInput c where
  disMask := s.disMask i
  disUops := s.disUops i
  wbRobIdxs := i.wbRobIdxs
  lsuClrBsy := i.lsuClrBsy
  memXcpt := i.memXcpt
  ldoXcpt := i.ldoXcpt
  brinfo := s.brinfo

/-- What is dispatched. -/
def newUops : List (RobUop c) := Rob.newUops (s.robInput i)

/-! ### Branches on their way -/

/-- What is left of a branch after this cycle. -/
def brFilter (u : RobUop c) : Option (RobUop c) :=
  if s.rob.flushPipeline || isKilledByBranch s.brinfo u.brMask then none
  else some (u.resolve s.brinfo)

/-- The branch unit. -/
def nextBrReg : Option (RobUop c × Bool) :=
  match i.exe with
  | some e => (s.brs[e.1]?.bind s.brFilter).map fun u => (u, e.2)
  | none => none

/-- The branches that are not executed in this cycle. -/
def brsLeft : List (RobUop c) :=
  match i.exe with
  | some e => s.brs.eraseIdx e.1
  | none => s.brs

def nextBrs : List (RobUop c) :=
  (s.brsLeft i).filterMap s.brFilter ++ (s.newUops i).filter fun u => u.allocatesBrTag

def nextBranchMask : BrMask c :=
  if s.rob.flushPipeline then fun _ => false
  else match s.brinfo.filter fun b => b.mispredict with
    | some b => b.exeMask
    | none => getNewBrMask s.brinfo (s.turn i c.decodeWidth).currBrMask

/-! ### History -/

/-- The micro-op commits in this cycle. -/
def commits (u : RobUop c) : Bool := s.rob.commits (robSlot u.robIdx)

/-- The micro-op is killed by a branch in this cycle. -/
def brKills (u : RobUop c) : Bool :=
  !s.commits u && s.rob.brKills (s.robInput i) (robSlot u.robIdx)

/-- The micro-op is rolled back in this cycle. -/
def rollsBack (u : RobUop c) : Bool :=
  !s.commits u && !s.brKills i u && s.rob.rollsBack (robSlot u.robIdx)

/-- The map table after turn `k` of the instructions of the bundle, renamed one by one. -/
def tableAfter (k : ℕ) : LReg → PReg c := (s.ren.tablesBefore (s.renInput i) k).element

def nextRenamed (q : ℕ) : LReg → PReg c :=
  match (s.disSlots i).find? fun w => decide ((s.disUops i w).seq = q) with
  | some w => s.tableAfter i (w + 1)
  | none => s.renamed q

/-- One cycle. -/
def next : Core c where
  rob := s.rob.next (s.robInput i)
  ren := s.ren.next (s.renInput i)
  branchMask := s.nextBranchMask i
  brs := s.nextBrs i
  brReg := s.nextBrReg i
  count := s.count + (s.newUops i).length
  committed := s.committed ++ s.rob.window.filter s.commits
  killed := s.killed ++ s.rob.window.filter (s.brKills i)
  rolledBack := s.rolledBack ++ s.rob.window.filter (s.rollsBack i)
  renamed := s.nextRenamed i

/-! ### Runs -/

structure IsReset : Prop where
  rob : s.rob.IsReset
  ren : s.ren.IsReset
  branchMask : ∀ t, s.branchMask t = false
  brs : s.brs = []
  brReg : s.brReg = none
  count : s.count = 0
  committed : s.committed = []
  killed : s.killed = []
  rolledBack : s.rolledBack = []

/-- A micro-op with nothing in it. -/
def nullUop (c : BOOMConf) : RobUop c :=
  let d : DecUop c := ⟨0, 0, 0, .x, .x, .x, false, false, 0, fun _ => false⟩
  let u : RenUop c := ⟨d, 0, 0, 0, 0, false, false⟩
  ⟨u, false, false, false, false, 0, false, false, false, false, 0, 0, 0, 0⟩

/-- The core after reset, every other register cleared. -/
def reset (c : BOOMConf) : Core c where
  rob := ⟨fun _ => ⟨false, false, nullUop c, false, 0⟩, 0, 0, .reset, false, false⟩
  ren := RenameStage.reset c
  branchMask _ := false
  brs := []
  brReg := none
  count := 0
  committed := []
  killed := []
  rolledBack := []
  renamed _ _ := 0

theorem isReset_reset (c : BOOMConf) : (reset c).IsReset where
  rob := ⟨fun _ => rfl, rfl, rfl, rfl, rfl⟩
  ren := ⟨fun _ => rfl, fun _ => rfl, fun _ => rfl⟩
  branchMask _ := rfl
  brs := rfl
  brReg := rfl
  count := rfl
  committed := rfl
  killed := rfl
  rolledBack := rfl

end Core

/-- `ldst := f(lrs1)`. -/
def DecInst.addi (isUnique : Bool) (ldst lrs1 : LReg) : DecInst c where
  toDecUop := ⟨ldst, lrs1, 0, .fix, .fix, .x, false, false, 0, fun _ => false⟩
  isSret := false
  isMemSpecial := false
  isFencei := false
  exception := false
  excCause := 0
  isStore := false
  isLoad := false
  isUnique := isUnique
  flushOnCommit := false
  unique_of_flush _ h := absurd h Bool.false_ne_true
  busy_of_branch _ h := absurd h Bool.false_ne_true

/-- A bundle, and registers that are woken up. -/
def CoreInput.feed (valid : Bool) (insts : Bank c → DecInst c) (wbPdsts : List (PReg c)) :
    CoreInput c :=
  ⟨fun _ => valid, insts, fun _ => true, false, false, true, fun _ => 0, fun _ => 0, wbPdsts, [],
    none, none, none, none⟩

/-- No unit answers for a branch that the branch unit has not executed. -/
def CoreInput.Ok (s : Core c) (i : CoreInput c) : Prop :=
  ∀ u ∈ s.brs ++ s.newUops i, u.allocatesBrTag = true →
    (s.robInput i).clearsBsy (robSlot u.robIdx) = false

/-- The runs of the core. -/
def Core.machine (c : BOOMConf) : Machine (Core c) (CoreInput c) where
  init := IsReset
  step s i s' := i.Ok s ∧ s' = s.next i

end RiscvSoc
