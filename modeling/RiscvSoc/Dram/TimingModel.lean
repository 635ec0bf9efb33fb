import RiscvSoc.Dram.MemController
import RiscvSoc.Lib.Machine

/-!
# The timing model and the memory controller

`DRAMTimingModel` watches the command bus: it has a state machine for every bank, and it checks that
the data of a write come with the write latency. `MemController` has one timer for all banks.

The timer is right for the bank that is open, because the two see the same commands from the opening
of the row to its closing, and both start with the counters of an open row at zero. It is right for
a bank that is to be opened, because the bank was closed at least as long ago as the last row of
all.
-/

namespace RiscvSoc

namespace Dram

open BankState

variable {c : MemConf}

/-- An address in pieces: bank, row, column and offset. -/
abbrev DRAMAddr (c : MemConf) : Type := BitVec (3 + 14 + 9 + c.addrOffsetWidth)

structure DRAMTimingModelState (c : MemConf) where
  banks : Fin 8 → BankState
  readDataShiftRegs : ℕ → DDRDataBus
  writeDataShiftRegs : ℕ → BitVec 64
  doWriteShiftRegs : ℕ → Bool
  writeAddrShiftRegs : ℕ → DRAMAddr c
  tWLViolation : Bool

structure DRAMTimingModelIn where
  params : BankParams
  fireTgtCycle : Bool
  cmdBus : DDRCommandBus
  writeDataBus : DDRDataBus
  /-- `io.ctrlFSM.readData`. -/
  readData : Option (Fin 4 → BitVec 128)

namespace DRAMTimingModel

variable (s : DRAMTimingModelState c) (i : DRAMTimingModelIn)

structure IsReset : Prop where
  banks : ∀ k, s.banks k = .init
  readDataShiftRegs : ∀ k, s.readDataShiftRegs k = ⟨false, 0⟩
  writeDataShiftRegs : ∀ k, s.writeDataShiftRegs k = 0
  doWriteShiftRegs : ∀ k, s.doWriteShiftRegs k = false
  writeAddrShiftRegs : ∀ k, s.writeAddrShiftRegs k = 0
  tWLViolation : s.tWLViolation = false

/-- The row of the bank on the bus. -/
def rowAddr : BitVec 14 := (s.banks (Fin.ofNat 8 i.cmdBus.bankAddr.toNat)).currentRowAddr

/-- The address of the column on the bus. -/
def busAddr : DRAMAddr c :=
  i.cmdBus.bankAddr ++ rowAddr s i ++ i.cmdBus.colAddr ++ (0 : BitVec c.addrOffsetWidth)

def doRead : Bool := decide (i.cmdBus.cmd = .read) && i.cmdBus.valid

def startWrite : Bool := decide (i.cmdBus.cmd = .write) && i.cmdBus.valid

def doWrite : Bool := s.doWriteShiftRegs (tWL + burstLength - 2)

def writeAddr : DRAMAddr c := s.writeAddrShiftRegs (tWL + burstLength - 2)

/-- `io.memController.readDataBus`. -/
def readDataBus : DDRDataBus := s.readDataShiftRegs (tCL + burstLength - 2)

/-- The words of the line that is written, the last one that came first. -/
def writeWord : ℕ → BitVec 64
  | 0 => i.writeDataBus.data
  | k + 1 => s.writeDataShiftRegs k

/-- `io.ctrlFSM.writeData`. -/
def writeData (k : Fin 4) : BitVec 128 := lineBeat (writeWord s i) k

def expectReceiveWriteData : Bool := s.doWriteShiftRegs (tWL - 1)

/-- The read data delay chain in the next target cycle. -/
def nextReadData (k : ℕ) : DDRDataBus :=
  match i.readData with
  | some beats => if k < burstLength then ⟨true, lineWord beats k⟩ else s.readDataShiftRegs (k - 1)
  | none =>
    if k = 0 then ⟨false, (s.readDataShiftRegs 0).data⟩ else s.readDataShiftRegs (k - 1)

/-- A register that moves in a target cycle only. -/
def onFire {α : Type} (next old : α) : α := if i.fireTgtCycle then next else old

/-- One host cycle. -/
def next : DRAMTimingModelState c where
  banks k := DRAMBank.next i.params i.fireTgtCycle (s.banks k)
    (i.cmdBus.bankCmd (decide (i.cmdBus.bankAddr.toNat = k.val) && i.cmdBus.valid))
  readDataShiftRegs := onFire i (nextReadData s i) s.readDataShiftRegs
  writeDataShiftRegs := onFire i
    (fun k => if k = 0 then i.writeDataBus.data else s.writeDataShiftRegs (k - 1))
    s.writeDataShiftRegs
  doWriteShiftRegs := onFire i
    (fun k => if k = 0 then startWrite i else s.doWriteShiftRegs (k - 1)) s.doWriteShiftRegs
  writeAddrShiftRegs := onFire i
    (fun k => if k = 0 then busAddr s i else s.writeAddrShiftRegs (k - 1)) s.writeAddrShiftRegs
  tWLViolation := onFire i
    (expectReceiveWriteData s && !i.writeDataBus.valid || s.tWLViolation) s.tWLViolation

end DRAMTimingModel

/-- No error is flagged: every bank is in a state of a legal command, and the data of the writes
came in time. -/
structure DRAMTimingModelState.Fine (s : DRAMTimingModelState c) : Prop where
  banks : ∀ k, (s.banks k).fsm.isError = false
  tWL : s.tWLViolation = false

/-! ### The controller drives the model -/

structure MemTiming (c : MemConf) where
  controller : MemControllerState c
  model : DRAMTimingModelState c

/-- What comes from outside in a host cycle. -/
structure MemTimingIn (c : MemConf) where
  fireTgtCycle : Bool
  memCmd : Option (MemReqCmd c)
  memData : Option (BitVec 128)
  respReady : Bool
  readData : Option (Fin 4 → BitVec 128)

namespace MemTiming

variable (p : BankParams) (s : MemTiming c) (i : MemTimingIn c)

def controllerIn : MemControllerIn c where
  params := p
  fireTgtCycle := i.fireTgtCycle
  memCmd := i.memCmd
  memData := i.memData
  respReady := i.respReady
  readDataBus := DRAMTimingModel.readDataBus s.model

def control : MemController.Control c := MemController.control s.controller (controllerIn p s i)

def modelIn : DRAMTimingModelIn where
  params := p
  fireTgtCycle := i.fireTgtCycle
  cmdBus := (control p s i).cmdBus
  writeDataBus := MemController.writeDataBus s.controller
  readData := i.readData

def next : MemTiming c where
  controller := MemController.next s.controller (controllerIn p s i)
  model := DRAMTimingModel.next s.model (modelIn p s i)

def IsReset : Prop := MemController.IsReset s.controller ∧ DRAMTimingModel.IsReset s.model

/-- The controller and the model, with timing parameters that do not change. -/
def machine (c : MemConf) (p : BankParams) : Machine (MemTiming c) (MemTimingIn c) :=
  Machine.clocked IsReset (next p)

/-! ### The invariant -/

variable {p : BankParams} {s : MemTiming c} {i : MemTimingIn c}

/-- The bank of the request that is served. -/
def bank (s : MemTiming c) : ℕ := (MemController.bankOf s.controller.currentAddr).toNat

theorem bank_lt (s : MemTiming c) : bank s < 8 :=
  (MemController.bankOf s.controller.currentAddr).isLt

/-- The bank of the request has a row open. -/
def IsOpen (s : MemTiming c) (k : Fin 8) : Prop :=
  MemController.phase s.controller.currentState ≠ .closed ∧ bank s = k

/-- What is known of the timer and the banks. -/
structure BankInv (p : BankParams) (s : MemTiming c) : Prop where
  limits : ∀ k, (s.model.banks k).tRPCounter ≤ limit p.tRP
  closed : ∀ k, ¬ IsOpen s k → (s.model.banks k).Rested ∧
    s.controller.timer.tRPCounter ≤ (s.model.banks k).tRPCounter
  opened : ∀ k, IsOpen s k → s.controller.timer.Agrees (s.model.banks k)
  idle : MemController.phase s.controller.currentState = .closed → s.controller.timer.Rested
  busy : MemController.phase s.controller.currentState ≠ .closed →
    s.controller.timer.tRPCounter = 0
  row : MemController.phase s.controller.currentState = .row →
    s.controller.timer.fsm = .rowOpened
  col : MemController.phase s.controller.currentState = .col →
    s.controller.timer.fsm.colOpened = true ∧ s.controller.timer.tRCDCounter = 0

/-- What is known of the data of the writes: where the model waits for them, the last word is on its
way. -/
structure WriteInv (s : MemTiming c) : Prop where
  writes : ∀ k, s.model.doWriteShiftRegs k = true →
    (s.controller.dataInBusRegs (k + (burstLength - 1))).valid = true
  tWL : s.model.tWLViolation = false

theorem BankInv.start (h : IsReset s) : BankInv p s := by
  obtain ⟨hc, hm⟩ := h
  have hrested : BankState.Rested .init := ⟨rfl, rfl, rfl, rfl⟩
  have hphase : MemController.phase s.controller.currentState = .closed := by
    rw [hc.currentState]
    rfl
  constructor
  · intro k
    rw [hm.banks]
    exact Nat.zero_le _
  · intro k _
    rw [hm.banks, hc.timer]
    exact ⟨hrested, le_rfl⟩
  · intro k h
    exact absurd hphase h.1
  · intro _
    rw [hc.timer]
    exact hrested
  · intro _
    rw [hc.timer]
    rfl
  · intro h
    rw [hphase] at h
    cases h
  · intro h
    rw [hphase] at h
    cases h

theorem WriteInv.start (h : IsReset s) : WriteInv s where
  writes k hk := by
    rw [h.2.doWriteShiftRegs] at hk
    cases hk
  tWL := h.2.tWLViolation

theorem BankInv.fine (h : BankInv p s) (hw : WriteInv s) : s.model.Fine where
  banks k := by
    by_cases hk : IsOpen s k
    · obtain ⟨hfsm, hopened, -⟩ := h.opened k hk
      rw [hfsm]
      revert hopened
      cases s.controller.timer.fsm <;> simp [BankFsm.opened, BankFsm.isError]
    · rw [(h.closed k hk).1.fsm]
      rfl
  tWL := hw.tWL

/-! ### One target cycle -/

/-- The command that bank `k` sees. -/
def bankCmd (p : BankParams) (s : MemTiming c) (i : MemTimingIn c) (k : Fin 8) : BankCmd :=
  (control p s i).cmdBus.bankCmd
    (decide ((control p s i).cmdBus.bankAddr.toNat = k.val) && (control p s i).cmdBus.valid)

/-- The command that the timer sees. -/
def timerCmd (p : BankParams) (s : MemTiming c) (i : MemTimingIn c) : BankCmd :=
  (control p s i).cmdBus.bankCmd (control p s i).cmdBus.valid

theorem next_of_fire (hfire : i.fireTgtCycle = true) :
    (next p s i).controller.timer = s.controller.timer.next true p (timerCmd p s i) ∧
    (∀ k, (next p s i).model.banks k = (s.model.banks k).next false p (bankCmd p s i k)) ∧
    (next p s i).controller.currentState = (control p s i).nextState ∧
    (next p s i).controller.currentAddr = (control p s i).nextAddr := by
  exact ⟨if_pos hfire, fun k => if_pos hfire, if_pos hfire, if_pos hfire⟩

/-- A bank whose number is not on the bus sees no command. -/
theorem bankCmd_other {k : Fin 8} (h : (control p s i).cmdBus.bankAddr.toNat ≠ k) :
    (bankCmd p s i k).valid = false := by
  simp [bankCmd, DDRCommandBus.bankCmd, h]

/-- The bank whose number is on the bus sees what the timer sees. -/
theorem bankCmd_self {k : Fin 8} (h : (control p s i).cmdBus.bankAddr.toNat = k) :
    bankCmd p s i k = timerCmd p s i := by
  rw [bankCmd, timerCmd, decide_eq_true h, Bool.true_and]

theorem timer_not_closed (h : BankInv p s)
    (hphase : MemController.phase s.controller.currentState ≠ .closed) :
    s.controller.timer.fsm ≠ .rowClosed := by
  have hopen : IsOpen s ⟨bank s, bank_lt s⟩ := ⟨hphase, rfl⟩
  intro hf
  have hopened := (h.opened _ hopen).opened
  rw [hf] at hopened
  cases hopened

section Step

variable {s' : MemTiming c} (h : BankInv p s)
  (htimer : s'.controller.timer = s.controller.timer.next true p (timerCmd p s i))
  (hbanks : ∀ k, s'.model.banks k = (s.model.banks k).next false p (bankCmd p s i k))
  (hstate : s'.controller.currentState = (control p s i).nextState)
  (haddr : s'.controller.currentAddr = (control p s i).nextAddr)

include h hbanks in
theorem limits_next (k : Fin 8) : (s'.model.banks k).tRPCounter ≤ limit p.tRP := by
  rw [hbanks]
  exact tRP_le (h.limits k)

include h htimer hbanks hstate haddr in
theorem BankInv.waits (hw : MemController.Waits s.controller (controllerIn p s i)) :
    BankInv p s' := by
  have htv : (timerCmd p s i).valid = false := hw.valid
  have hbv : ∀ k, (bankCmd p s i k).valid = false := by
    intro k
    show (_ && (control p s i).cmdBus.valid) = false
    rw [show (control p s i).cmdBus.valid = false from hw.valid, Bool.and_false]
  have hphase : MemController.phase s'.controller.currentState =
      MemController.phase s.controller.currentState := by rw [hstate]; exact hw.phase
  have haddr' : s'.controller.currentAddr = s.controller.currentAddr := haddr.trans hw.addr
  have hopen : ∀ k, IsOpen s' k ↔ IsOpen s k := by
    intro k
    rw [IsOpen, IsOpen, hphase, bank, bank, haddr']
  have hfsm : s'.controller.timer.fsm = s.controller.timer.fsm := by
    rw [htimer]
    exact nextState_idle htv
  refine ⟨limits_next h hbanks, ?_, ?_, ?_, ?_, ?_, ?_⟩
  · intro k hk
    obtain ⟨hrested, hle⟩ := h.closed k (mt (hopen k).mpr hk)
    rw [htimer, hbanks]
    refine ⟨hrested.idle (hbv k), ?_⟩
    by_cases hclosed : MemController.phase s.controller.currentState = .closed
    · exact tRP_idle (h.idle hclosed).fsm hrested.fsm htv hle (h.limits k) (hbv k)
    · rw [tRP_zero (.inr ⟨timer_not_closed h hclosed, h.busy hclosed⟩)]
      exact Nat.zero_le _
  · intro k hk
    rw [htimer, hbanks]
    exact (h.opened k ((hopen k).mp hk)).idle htv (hbv k)
  · intro hc
    rw [htimer]
    exact (h.idle (hphase ▸ hc)).idle htv
  · intro hc
    rw [hphase] at hc
    rw [htimer]
    exact tRP_zero (.inr ⟨timer_not_closed h hc, h.busy hc⟩)
  · intro hc
    rw [hfsm]
    exact h.row (hphase ▸ hc)
  · intro hc
    obtain ⟨hcol, hrcd⟩ := h.col (hphase ▸ hc)
    rw [hfsm]
    refine ⟨hcol, ?_⟩
    rw [htimer]
    refine tRCD_zero (.inr ⟨fun hf => ?_, hrcd⟩)
    rw [hf] at hcol
    cases hcol

include h htimer hbanks hstate haddr in
theorem BankInv.activates (ha : MemController.Activates s.controller (controllerIn p s i)) :
    BankInv p s' := by
  have hphase : MemController.phase s.controller.currentState = .closed := by
    rw [ha.idle]
    rfl
  have hphase' : MemController.phase s'.controller.currentState = .row := by
    rw [hstate]
    exact ha.phase
  have hbusy' : MemController.phase s'.controller.currentState ≠ .closed := by
    rw [hphase']
    exact fun h => nomatch h
  have hvalid : (timerCmd p s i).valid = true := ha.valid
  have hact : (timerCmd p s i).activate = true := decide_eq_true ha.cmd
  have hbus : (control p s i).cmdBus.bankAddr.toNat = bank s' := by
    rw [bank, haddr]
    exact congrArg BitVec.toNat ha.bank
  have hrested : ∀ k, (s.model.banks k).Rested ∧
      s.controller.timer.tRPCounter ≤ (s.model.banks k).tRPCounter :=
    fun k => h.closed k fun hk => hk.1 hphase
  have htRP : s.controller.timer.tRPOk p = true := (Bool.and_eq_true_iff.mp ha.rdy).2
  have hzero : s'.controller.timer.tRPCounter = 0 := by
    rw [htimer]
    exact tRP_zero (.inl ⟨(h.idle hphase).fsm, hvalid⟩)
  have hopens : ∀ k, IsOpen s' k → s'.controller.timer.Agrees (s'.model.banks k) ∧
      s'.controller.timer.fsm = .rowOpened := by
    rintro k ⟨-, hk⟩
    have hbRP : (s.model.banks k).tRPOk p = true := by
      have hcount : s.controller.timer.tRPCounter = limit p.tRP := of_decide_eq_true htRP
      have hle := (hrested k).2
      have hlimit := h.limits k
      exact decide_eq_true (by omega)
    rw [htimer, hbanks, bankCmd_self (hbus.trans hk)]
    exact (h.idle hphase).activate (hrested k).1 hvalid hact htRP hbRP
  refine ⟨limits_next h hbanks, ?_, fun k hk => (hopens k hk).1, ?_, fun _ => hzero, ?_, ?_⟩
  · intro k hk
    have hother : (control p s i).cmdBus.bankAddr.toNat ≠ k :=
      fun heq => hk ⟨hbusy', hbus.symm.trans heq⟩
    rw [hzero, hbanks]
    exact ⟨(hrested k).1.idle (bankCmd_other hother), Nat.zero_le _⟩
  · intro hc
    rw [hphase'] at hc
    cases hc
  · exact fun _ => (hopens ⟨bank s', bank_lt s'⟩ ⟨hbusy', rfl⟩).2
  · intro hc
    rw [hphase'] at hc
    cases hc

include h htimer hbanks hstate haddr in
theorem BankInv.accesses (ha : MemController.Accesses s.controller (controllerIn p s i)) :
    BankInv p s' := by
  have hphase' : MemController.phase s'.controller.currentState = .col := by
    rw [hstate]
    exact congrArg MemController.phase ha.next
  have hbusy : MemController.phase s.controller.currentState ≠ .closed := by
    rw [ha.row]
    exact fun h => nomatch h
  have hbusy' : MemController.phase s'.controller.currentState ≠ .closed := by
    rw [hphase']
    exact fun h => nomatch h
  have hvalid : (timerCmd p s i).valid = true := ha.valid
  have haddr' : s'.controller.currentAddr = s.controller.currentAddr := haddr.trans ha.addr
  have hbus : (control p s i).cmdBus.bankAddr.toNat = bank s := congrArg BitVec.toNat ha.bank
  have hbank : bank s' = bank s := by rw [bank, bank, haddr']
  have hrow := h.row ha.row
  have hzero : s'.controller.timer.tRPCounter = 0 := by
    rw [htimer]
    exact tRP_zero (.inr ⟨timer_not_closed h hbusy, h.busy hbusy⟩)
  have hopens : ∀ k, IsOpen s' k → s'.controller.timer.Agrees (s'.model.banks k) ∧
      s'.controller.timer.fsm.colOpened = true := by
    rintro k ⟨-, hk⟩
    have hagrees := h.opened k ⟨hbusy, hbank.symm.trans hk⟩
    rw [htimer, hbanks, bankCmd_self (hbus.trans (hbank.symm.trans hk))]
    have hpre : (timerCmd p s i).precharge = false := by
      rcases ha.cmd with ⟨hcmd, -⟩ | ⟨hcmd, -⟩ <;> refine decide_eq_false ?_ <;>
        rw [show (control p s i).cmdBus.cmd = _ from hcmd] <;> exact fun h => nomatch h
    rcases ha.cmd with ⟨hcmd, -⟩ | ⟨hcmd, -⟩
    · obtain ⟨hnext, hfsm⟩ := hagrees.read hrow hvalid (decide_eq_true hcmd) hpre ha.rdy
      exact ⟨hnext, congrArg BankFsm.colOpened hfsm⟩
    · have hread : (timerCmd p s i).read = false := by
        refine decide_eq_false ?_
        rw [show (control p s i).cmdBus.cmd = _ from hcmd]
        exact fun h => nomatch h
      obtain ⟨hnext, hfsm⟩ := hagrees.write hrow hvalid (decide_eq_true hcmd) hread hpre ha.rdy
      exact ⟨hnext, congrArg BankFsm.colOpened hfsm⟩
  refine ⟨limits_next h hbanks, ?_, fun k hk => (hopens k hk).1, ?_, fun _ => hzero, ?_, ?_⟩
  · intro k hk
    have hclosed : ¬ IsOpen s k := fun hk' => hk ⟨hbusy', hbank.trans hk'.2⟩
    have hother : (control p s i).cmdBus.bankAddr.toNat ≠ k :=
      fun heq => hclosed ⟨hbusy, hbus.symm.trans heq⟩
    rw [hzero, hbanks]
    exact ⟨(h.closed k hclosed).1.idle (bankCmd_other hother), Nat.zero_le _⟩
  · intro hc
    exact absurd hc hbusy'
  · intro hc
    rw [hphase'] at hc
    cases hc
  · intro _
    refine ⟨(hopens ⟨bank s', bank_lt s'⟩ ⟨hbusy', rfl⟩).2, ?_⟩
    rw [htimer]
    exact tRCD_zero (.inl ⟨hrow, hvalid⟩)

include h htimer hbanks hstate in
theorem BankInv.closes (hc : MemController.Closes s.controller (controllerIn p s i)) :
    BankInv p s' := by
  have hphase' : MemController.phase s'.controller.currentState = .closed := by
    rw [hstate]
    exact congrArg MemController.phase hc.next
  have hphase : MemController.phase s.controller.currentState = .col := by
    rw [hc.col]
    rfl
  have hbusy : MemController.phase s.controller.currentState ≠ .closed := by
    rw [hphase]
    exact fun h => nomatch h
  have hvalid : (timerCmd p s i).valid = true := hc.valid
  have hpre : (timerCmd p s i).precharge = true := decide_eq_true hc.cmd
  have hbus : (control p s i).cmdBus.bankAddr.toNat = bank s := congrArg BitVec.toNat hc.bank
  obtain ⟨hcol, hrcd⟩ := h.col hphase
  have hzero : s'.controller.timer.tRPCounter = 0 := by
    rw [htimer]
    exact tRP_zero (.inr ⟨timer_not_closed h hbusy, h.busy hbusy⟩)
  have hcloses : ∀ k, IsOpen s k → s'.controller.timer.Rested ∧ (s'.model.banks k).Rested := by
    intro k hk
    rw [htimer, hbanks, bankCmd_self (hbus.trans hk.2)]
    exact (h.opened k hk).precharge hcol hrcd hvalid hpre hc.rdy
  refine ⟨limits_next h hbanks, ?_, ?_, ?_, fun _ => hzero, ?_, ?_⟩
  · intro k _
    rw [hzero]
    refine ⟨?_, Nat.zero_le _⟩
    by_cases hk : IsOpen s k
    · exact (hcloses k hk).2
    · rw [hbanks]
      exact (h.closed k hk).1.idle (bankCmd_other fun heq => hk ⟨hbusy, hbus.symm.trans heq⟩)
  · intro k hk
    exact absurd hphase' hk.1
  · intro _
    exact (hcloses ⟨bank s, bank_lt s⟩ ⟨hbusy, rfl⟩).1
  · intro hrow
    rw [hphase'] at hrow
    cases hrow
  · intro hcol'
    rw [hphase'] at hcol'
    cases hcol'

end Step

/-- In a host cycle without a target cycle nothing moves but the queues, and they do not move
either. -/
theorem next_of_not_fire (hfire : i.fireTgtCycle = false) :
    (next p s i).controller.timer = s.controller.timer ∧
    (∀ k, (next p s i).model.banks k = s.model.banks k) ∧
    (next p s i).controller.currentState = s.controller.currentState ∧
    (next p s i).controller.currentAddr = s.controller.currentAddr ∧
    (next p s i).controller.dataInBusRegs = s.controller.dataInBusRegs ∧
    (next p s i).model.doWriteShiftRegs = s.model.doWriteShiftRegs ∧
    (next p s i).model.tWLViolation = s.model.tWLViolation := by
  have hno : ¬ i.fireTgtCycle = true := Bool.eq_false_iff.mp hfire
  exact ⟨if_neg hno, fun k => if_neg hno, if_neg hno, if_neg hno, if_neg hno, if_neg hno,
    if_neg hno⟩

theorem BankInv.next (h : BankInv p s) : BankInv p (next p s i) := by
  cases hfire : i.fireTgtCycle with
  | false =>
    obtain ⟨htimer, hbanks, hstate, haddr, -⟩ := next_of_not_fire (p := p) (s := s) hfire
    obtain ⟨hlimits, hclosed, hopened, hidle, hbusy, hrow, hcol⟩ := h
    constructor <;> simp only [IsOpen, bank, htimer, hbanks, hstate, haddr] <;> assumption
  | true =>
    obtain ⟨htimer, hbanks, hstate, haddr⟩ := next_of_fire (p := p) (s := s) hfire
    rcases MemController.control_cases (s := s.controller) (i := controllerIn p s i) with
      hw | ha | ha | hc
    · exact h.waits htimer hbanks hstate haddr hw
    · exact h.activates htimer hbanks hstate haddr ha
    · exact h.accesses htimer hbanks hstate haddr ha
    · exact h.closes htimer hbanks hstate hc

theorem dataInBus_of_startWrite (h : DRAMTimingModel.startWrite (modelIn p s i) = true) :
    ∃ beats, (control p s i).dataInBus = some beats := by
  obtain ⟨hcmd, hvalid⟩ := Bool.and_eq_true_iff.mp h
  have hwrite : (control p s i).cmdBus.cmd = .write := of_decide_eq_true hcmd
  have hvalid' : (control p s i).cmdBus.valid = true := hvalid
  rcases MemController.control_cases (s := s.controller) (i := controllerIn p s i) with
    hw | ha | ha | hc
  · rw [show (control p s i).cmdBus.valid = false from hw.valid] at hvalid'
    cases hvalid'
  · rw [show (control p s i).cmdBus.cmd = _ from ha.cmd] at hwrite
    cases hwrite
  · rcases ha.cmd with ⟨hread, -⟩ | ⟨-, hbeats⟩
    · rw [show (control p s i).cmdBus.cmd = _ from hread] at hwrite
      cases hwrite
    · exact hbeats
  · rw [show (control p s i).cmdBus.cmd = _ from hc.cmd] at hwrite
    cases hwrite

theorem valid_nextDataInBus {dataInBus : Option (Fin 4 → BitVec 128)} {regs : ℕ → DDRDataBus}
    {k : ℕ} (h : (regs k).valid = true) :
    (MemController.nextDataInBus dataInBus regs (k + 1)).valid = true := by
  cases dataInBus with
  | none => exact h
  | some beats =>
    show (if k + 1 < burstLength then (⟨true, lineWord beats (k + 1)⟩ : DDRDataBus)
      else regs k).valid = true
    split
    · rfl
    · exact h

theorem WriteInv.next (h : WriteInv s) : WriteInv (next p s i) := by
  cases hfire : i.fireTgtCycle with
  | false =>
    obtain ⟨-, -, -, -, hregs, hwrites, htWL⟩ := next_of_not_fire (p := p) (s := s) hfire
    constructor
    · rw [hwrites, hregs]
      exact h.writes
    · rw [htWL]
      exact h.tWL
  | true =>
    have hregs : (MemTiming.next p s i).controller.dataInBusRegs =
        MemController.nextDataInBus (control p s i).dataInBus s.controller.dataInBusRegs :=
      if_pos hfire
    have hwrites : (MemTiming.next p s i).model.doWriteShiftRegs = fun k =>
        if k = 0 then DRAMTimingModel.startWrite (modelIn p s i)
        else s.model.doWriteShiftRegs (k - 1) := if_pos hfire
    have htWL : (MemTiming.next p s i).model.tWLViolation =
        (DRAMTimingModel.expectReceiveWriteData s.model &&
          !(MemController.writeDataBus s.controller).valid || s.model.tWLViolation) :=
      if_pos hfire
    constructor
    · intro k hk
      rw [hregs]
      rw [hwrites] at hk
      cases k with
      | zero =>
        obtain ⟨beats, hbeats⟩ := dataInBus_of_startWrite hk
        rw [hbeats]
        rfl
      | succ k => exact valid_nextDataInBus (h.writes k hk)
    · rw [htWL, h.tWL, Bool.or_false]
      cases hexpect : DRAMTimingModel.expectReceiveWriteData s.model with
      | false => rfl
      | true =>
        have hvalid : (MemController.writeDataBus s.controller).valid = true :=
          h.writes _ hexpect
        rw [hvalid]
        rfl

end MemTiming

/-- **The memory controller keeps the timing of the DRAM**: whatever the timing parameters are and
whatever comes in, no bank is ever in an error state, and the data of no write are late. -/
theorem mem_controller_keeps_timing (c : MemConf) (p : BankParams) :
    ∀ s, (MemTiming.machine c p).Reachable s → s.model.Fine := by
  have hinv : ∀ s, (MemTiming.machine c p).Reachable s →
      MemTiming.BankInv p s ∧ MemTiming.WriteInv s := by
    refine Machine.invariant (fun s hs => ⟨.start hs, .start hs⟩) ?_
    rintro s i s' - ⟨hb, hw⟩ rfl
    exact ⟨hb.next, hw.next⟩
  exact fun s hs => (hinv s hs).1.fine (hinv s hs).2

/-! ### The first command -/

namespace FirstActivate

def conf : MemConf := ⟨26, 5, 0⟩

/-- Every command may follow the last one at once. -/
def params : BankParams := ⟨1, 1, 1, 1, 1, 1, 1⟩

local instance neZeroSixteen : NeZero 16 := ⟨Nat.succ_ne_zero 15⟩

def start : MemTiming conf where
  controller :=
    { timer := .init
      currentAddr := 0
      readTagQueue := ⟨⟨0, 0, false⟩, fun _ => 0⟩
      readDataQueues := fun _ => ⟨⟨0, 0, false⟩, fun _ => 0⟩
      readDataShiftRegs := fun _ => ⟨false, 0⟩
      rHCurrentState := .rHIdle
      dataInBusRegs := fun _ => ⟨false, 0⟩
      currentState := .idle
      writeDatas := fun _ => 0 }
  model :=
    { banks := fun _ => .init
      readDataShiftRegs := fun _ => ⟨false, 0⟩
      writeDataShiftRegs := fun _ => 0
      doWriteShiftRegs := fun _ => false
      writeAddrShiftRegs := fun _ => 0
      tWLViolation := false }

/-- A read of the second row of the first bank. -/
def request : MemTimingIn conf where
  fireTgtCycle := true
  memCmd := some ⟨512, 3, false⟩
  memData := none
  respReady := false
  readData := none

theorem start_isReset : start.IsReset :=
  ⟨⟨rfl, rfl, rfl, fun _ => rfl, fun _ => rfl, rfl, fun _ => rfl, rfl⟩,
    ⟨fun _ => rfl, fun _ => rfl, fun _ => rfl, fun _ => rfl, fun _ => rfl, rfl⟩⟩

/-- The row is opened, and no error is flagged. -/
theorem keeps_timing_activate : (MemTiming.next params start request).model.Fine ∧
    ((MemTiming.next params start request).model.banks 0).fsm = .rowOpened :=
  ⟨mem_controller_keeps_timing conf params _ (.step (.init start_isReset) rfl), by decide⟩

end FirstActivate

end Dram

end RiscvSoc
