import RiscvSoc.Boom.Rename
import RiscvSoc.Lib.RowRing

/-!
# The reorder buffer

`Rob` from `boom/src/main/scala/rob.scala`, one clock cycle at a time. The buffer has one bank for
each slot of a dispatch bundle, and a row holds the bundle that was dispatched into it, bubbles
included. Rows are numbered modulo `NUM_ROB_ROWS`, as `WrapInc` and `WrapDec` number them.

In a block of `when`s the later assignment wins, so `Rob.nextEntry` lists the assignments of a field
from the last one of the source to the first.

Debug fields and the table of row addresses are left out: neither decides anything.
-/

namespace RiscvSoc

variable {c : BOOMConf}

/-! ### Micro-ops -/

/-- A renamed micro-op on its way into the buffer. -/
structure RobUop (c : BOOMConf) extends RenUop c where
  /-- `uopc === uopSRET`. -/
  isSret : Bool
  /-- `uopc === uopMEMSPECIAL`. -/
  isMemSpecial : Bool
  isFencei : Bool
  exception : Bool
  excCause : ℕ
  isStore : Bool
  isLoad : Bool
  isUnique : Bool
  flushOnCommit : Bool
  robIdx : ℕ
  ldqIdx : Fin c.lsuEntries
  stqIdx : Fin c.lsuEntries
  /-- A history variable: the number of the micro-op in the order of dispatch. Nothing reads it. -/
  seq : ℕ

namespace RobUop

/-- The micro-op under a new branch mask. -/
def withMask (u : RobUop c) (m : BrMask c) : RobUop c := { u with brMask := m }

/-- The micro-op after a branch is resolved. -/
def resolve (brinfo : Option (BrResolutionInfo c)) (u : RobUop c) : RobUop c :=
  u.withMask (getNewBrMask brinfo u.brMask)

variable (brinfo : Option (BrResolutionInfo c)) (u : RobUop c)

@[simp] theorem resolve_seq : (u.resolve brinfo).seq = u.seq := rfl

@[simp] theorem resolve_brTag : (u.resolve brinfo).brTag = u.brTag := rfl

@[simp] theorem resolve_brMask :
    (u.resolve brinfo).brMask = getNewBrMask brinfo u.brMask := rfl

end RobUop

/-! ### Indices -/

abbrev RobRow (c : BOOMConf) : Type := Fin c.numRobRows

/-- The number of a slot of a bundle. -/
abbrev Bank (c : BOOMConf) : Type := Fin c.decodeWidth

abbrev RobSlot (c : BOOMConf) : Type := RobRow c × Bank c

theorem BOOMConf.decodeWidth_pos (c : BOOMConf) : 0 < c.decodeWidth := by
  rcases c.decodeWidth_eq with h | h <;> omega

instance : NeZero c.decodeWidth := ⟨c.decodeWidth_pos.ne'⟩

/-- `Cat(dis_curr_rob_row_idx, UInt(w))`. -/
def RobSlot.idx (x : RobSlot c) : ℕ := x.1 * c.decodeWidth + x.2

/-- `GetRowIdx` and `GetBankIdx`. -/
def robSlot (idx : ℕ) : RobSlot c :=
  (Fin.ofNat _ (idx / c.decodeWidth), Fin.ofNat _ (idx % c.decodeWidth))

theorem robSlot_idx (x : RobSlot c) : robSlot x.idx = x := by
  have hdiv : (x.1 * c.decodeWidth + x.2) / c.decodeWidth = (x.1 : ℕ) := by
    rw [Nat.add_comm, Nat.add_mul_div_right _ _ c.decodeWidth_pos, Nat.div_eq_of_lt x.2.isLt,
      Nat.zero_add]
  have hmod : (x.1 * c.decodeWidth + x.2) % c.decodeWidth = (x.2 : ℕ) := by
    rw [Nat.add_comm, Nat.add_mul_mod_self_right, Nat.mod_eq_of_lt x.2.isLt]
  rw [robSlot, RobSlot.idx, hdiv, hmod, Fin.ofNat_val_eq_self, Fin.ofNat_val_eq_self]

/-! ### Registers and inputs -/

/-- `rob_state`. -/
inductive RobState
  | reset
  | normal
  | rollback
  | waitTillEmpty
  deriving DecidableEq, Repr

structure RobEntry (c : BOOMConf) where
  val : Bool
  bsy : Bool
  uop : RobUop c
  exception : Bool
  excCause : ℕ

structure Rob (c : BOOMConf) where
  entry : RobSlot c → RobEntry c
  head : RobRow c
  tail : RobRow c
  state : RobState
  flushPipeline : Bool
  lsuMisspec : Bool

/-- What the outside drives in one cycle. -/
structure RobInput (c : BOOMConf) where
  disMask : Bank c → Bool
  disUops : Bank c → RobUop c
  /-- `wb_rob_idxs` of the ports whose `wb_valids` is up. -/
  wbRobIdxs : List ℕ
  /-- `lsu_clr_bsy_rob_idx`. -/
  lsuClrBsy : Option ℕ
  /-- The `rob_idx` of `mem_xcpt_uop`, and `mem_xcpt.ma.ld`. -/
  memXcpt : Option (ℕ × Bool)
  /-- The `rob_idx` of `ldo_xcpt_uop`. -/
  ldoXcpt : Option ℕ
  brinfo : Option (BrResolutionInfo c)

/-- `MINI_EXCEPTION_MEM_ORDERING`. -/
def miniExceptionMemOrdering : ℕ := 13

/-- `Causes.misaligned_load` and `Causes.misaligned_store`. -/
def misalignedCause (ld : Bool) : ℕ := if ld then 8 else 9

namespace RobInput

variable (i : RobInput c)

/-- A busy bit of the buffer is cleared. -/
def clearsBsy (x : RobSlot c) : Bool :=
  i.wbRobIdxs.any (fun idx => decide (robSlot idx = x)) || decide (i.lsuClrBsy.map robSlot = some x)

/-- The branch that was mispredicted. -/
def mispredict : Option (BrResolutionInfo c) := i.brinfo.filter fun b => b.mispredict

/-- Something is dispatched. -/
def dispatches : Bool := orR i.disMask

end RobInput

namespace Rob

variable (s : Rob c) (i : RobInput c)

/-! ### The head of the buffer -/

def headVal (w : Bank c) : Bool := (s.entry (s.head, w)).val

def canThrowException (w : Bank c) : Bool := s.headVal w && (s.entry (s.head, w)).exception

def canCommit (w : Bank c) : Bool := s.headVal w && !(s.entry (s.head, w)).bsy

/-- The value of the variable `block_commit` in turn `w` of the loop. -/
def blockCommit (w : Bank c) : Bool :=
  decide (s.state ≠ .normal ∧ s.state ≠ .waitTillEmpty) ||
    orR fun v => decide (v < w) && s.headVal v && (!s.canCommit v || s.canThrowException v)

def willCommit (w : Bank c) : Bool :=
  s.canCommit w && !s.canThrowException w && !s.blockCommit w

/-- The value of the variable `block_xcpt` in turn `w` of the loop. -/
def blockXcpt (w : Bank c) : Bool :=
  orR fun v : Bank c => decide ((v : ℕ) + 1 = w) && s.willCommit v

def exceptionThrown : Bool :=
  orR fun w => s.canThrowException w && !s.blockCommit w && !s.blockXcpt w

/-- `com_exc_cause`, when there is one. -/
def comExcCause : Option ℕ :=
  (priorityEncoder s.canThrowException).map fun w => (s.entry (s.head, w)).excCause

def isMiniException : Bool := decide (s.comExcCause = some miniExceptionMemOrdering)

def comException : Bool := s.exceptionThrown && !s.isMiniException

/-! ### Commit and rollback -/

def comIdx : RobRow c := if s.state = .rollback then s.tail else s.head

def comUops (w : Bank c) : RobUop c := (s.entry (s.comIdx, w)).uop

def comRbkValids (w : Bank c) : Bool :=
  decide (s.state = .rollback) && (s.entry (s.comIdx, w)).val &&
    decide ((s.comUops w).ldstRtype = .fix)

/-- `io.com_st_mask` and `io.com_ld_mask`. -/
def comStMask (w : Bank c) : Bool := s.willCommit w && (s.entry (s.head, w)).uop.isStore

def comLdMask (w : Bank c) : Bool := s.willCommit w && (s.entry (s.head, w)).uop.isLoad

def flushVal : Bool :=
  s.exceptionThrown || orR fun w => s.willCommit w && (s.comUops w).flushOnCommit

def empty : Bool := decide (s.head = s.tail)

def full : Bool := decide (s.tail + 1 = s.head)

def ready : Bool := decide (s.state = .normal) && !s.full

/-! ### The registers after a cycle -/

/-- Entry `x` commits. -/
def commits (x : RobSlot c) : Bool := decide (x.1 = s.head) && s.willCommit x.2

/-- A mispredicted branch kills entry `x`. -/
def brKills (x : RobSlot c) : Bool :=
  (s.entry x).val && isKilledByBranch i.brinfo (s.entry x).uop.brMask

/-- Entry `x` is rolled back. -/
def rollsBack (x : RobSlot c) : Bool := decide (s.state = .rollback) && decide (x.1 = s.tail)

/-- Entry `x` is dispatched. -/
def fills (x : RobSlot c) : Bool := decide (x.1 = s.tail) && i.disMask x.2

def nextEntry (x : RobSlot c) : RobEntry c :=
  let e := s.entry x
  { val :=
      if s.commits x then false
      else if s.brKills i x then false
      else if s.rollsBack x then false
      else if s.fills i x then true
      else e.val
    bsy :=
      if i.clearsBsy x then false
      else if s.fills i x then
        let u := i.disUops x.2
        !u.isSret && !u.isMemSpecial && !u.isFencei
      else e.bsy
    uop :=
      let u := if s.fills i x then i.disUops x.2 else e.uop
      match i.brinfo with
      | some b =>
        if !b.mispredict && e.val && maskMatch b.mask e.uop.brMask then
          u.withMask (getNewBrMask i.brinfo e.uop.brMask)
        else u
      | none => u
    exception :=
      if s.rollsBack x then false
      else if i.ldoXcpt.map robSlot = some x then true
      else if i.memXcpt.map (fun m => robSlot m.1) = some x then true
      else if s.fills i x then (i.disUops x.2).exception
      else e.exception
    excCause :=
      if i.ldoXcpt.map robSlot = some x then miniExceptionMemOrdering
      else match i.memXcpt.filter fun m => decide (robSlot m.1 = x) with
        | some m => misalignedCause m.2
        | none => if s.fills i x then (i.disUops x.2).excCause else e.excCause }

/-- All valid instructions of the head row commit. -/
def headDone : Bool := orR s.willCommit && decide (∀ w, s.willCommit w = s.headVal w)

def nextTail : RobRow c :=
  if s.state = .rollback ∧ s.tail ≠ s.head then s.tail - 1
  else match i.mispredict with
    | some b => (robSlot b.robIdx).1 + 1
    | none => if i.dispatches then s.tail + 1 else s.tail

def nextState : RobState :=
  match s.state with
  | .reset => .normal
  | .normal =>
    if s.exceptionThrown then .rollback
    else if orR fun w => i.disMask w && (i.disUops w).isUnique then .waitTillEmpty
    else .normal
  | .rollback => if s.tail = s.head then .normal else .rollback
  | .waitTillEmpty =>
    if s.exceptionThrown then .rollback
    else if s.tail = s.head then .normal
    else .waitTillEmpty

/-- One cycle. -/
def next : Rob c where
  entry := s.nextEntry i
  head := if s.headDone then s.head + 1 else s.head
  tail := s.nextTail i
  state := s.nextState i
  flushPipeline := s.flushVal
  lsuMisspec := s.exceptionThrown && s.isMiniException

/-- Reset: every entry is invalid, and what else it holds is arbitrary. -/
structure IsReset : Prop where
  val : ∀ x, (s.entry x).val = false
  head : s.head = 0
  tail : s.tail = 0
  state : s.state = .reset
  flushPipeline : s.flushPipeline = false

end Rob

end RiscvSoc
