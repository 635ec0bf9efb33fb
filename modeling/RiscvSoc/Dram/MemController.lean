import RiscvSoc.Dram.Bank
import RiscvSoc.Lib.Encoder
import RiscvSoc.Lib.Queue

/-!
# The memory controller of the DRAM model

`MemController` serves one request at a time: it opens the row, reads or writes one column and
closes the row. It moves only in a target cycle. A line of memory is four beats on the side of the
requests and eight words on the side of the DRAM.

The words of a write go into a chain of registers all at once, the first word in front, and leave it
after the write latency, the last word first. The words of a read come in the same order; when eight
valid words are in the chain, the line goes to the queues of the beats.
-/

namespace RiscvSoc

namespace Dram

/-- The widths of the requests; a column of the DRAM is as wide as a line, so that the offset is
what an address has below it. -/
structure MemConf where
  addrBits : ℕ
  tagBits : ℕ
  addrOffsetWidth : ℕ

/-- The read latency. -/
def tCL : ℕ := 4

/-- The write latency. -/
def tWL : ℕ := 3

/-- Words in a line. -/
def burstLength : ℕ := 8

structure MemReqCmd (c : MemConf) where
  addr : BitVec c.addrBits
  tag : BitVec c.tagBits
  rw : Bool

structure MemResp (c : MemConf) where
  data : BitVec 128
  tag : BitVec c.tagBits
  deriving DecidableEq

inductive DDRCmd
  | activate
  | read
  | write
  | precharge
  | other
  deriving DecidableEq

structure DDRCommandBus where
  valid : Bool
  cmd : DDRCmd
  bankAddr : BitVec 3
  rowAddr : BitVec 14
  colAddr : BitVec 9

structure DDRDataBus where
  valid : Bool
  data : BitVec 64

/-- The wires of a bank or of the timer, which sees the command if `valid`. -/
def DDRCommandBus.bankCmd (bus : DDRCommandBus) (valid : Bool) : BankCmd where
  valid := valid
  activate := decide (bus.cmd = .activate)
  read := decide (bus.cmd = .read)
  write := decide (bus.cmd = .write)
  precharge := decide (bus.cmd = .precharge)
  rowAddr := bus.rowAddr
  colAddr := bus.colAddr

/-- Word `k` of a line, of the four beats put together. -/
def lineWord (beats : Fin 4 → BitVec 128) (k : ℕ) : BitVec 64 :=
  (beats (Fin.ofNat 4 (k / 2))).extractLsb' (64 * (k % 2)) 64

/-- Beat `k` of a line, of the eight words put together. -/
def lineBeat (word : ℕ → BitVec 64) (k : Fin 4) : BitVec 128 := word (2 * k + 1) ++ word (2 * k)

inductive ReadState
  | rHIdle
  | rHEnq1
  | rHEnq2
  | rHEnq3
  deriving DecidableEq

inductive CtrlState
  | idle
  | readRowOpened
  | colOpened
  | writeRowOpened
  | writeData1
  | writeData2
  | writeData3
  deriving DecidableEq

structure MemControllerState (c : MemConf) where
  timer : BankState
  currentAddr : BitVec c.addrBits
  readTagQueue : Queue (BitVec c.tagBits) 16
  readDataQueues : Fin 4 → Queue (BitVec 128) 16
  readDataShiftRegs : ℕ → DDRDataBus
  rHCurrentState : ReadState
  dataInBusRegs : ℕ → DDRDataBus
  currentState : CtrlState
  writeDatas : Fin 3 → BitVec 128

structure MemControllerIn (c : MemConf) where
  params : BankParams
  fireTgtCycle : Bool
  memCmd : Option (MemReqCmd c)
  memData : Option (BitVec 128)
  respReady : Bool
  readDataBus : DDRDataBus

namespace MemController

variable {c : MemConf} (s : MemControllerState c) (i : MemControllerIn c)

/-- Reset; the registers of the data of a write hold anything, and so do the memories. -/
structure IsReset : Prop where
  timer : s.timer = .init
  currentAddr : s.currentAddr = 0
  readTagQueue : s.readTagQueue.IsReset
  readDataQueues : ∀ k, (s.readDataQueues k).IsReset
  readDataShiftRegs : ∀ k, s.readDataShiftRegs k = ⟨false, 0⟩
  rHCurrentState : s.rHCurrentState = .rHIdle
  dataInBusRegs : ∀ k, s.dataInBusRegs k = ⟨false, 0⟩
  currentState : s.currentState = .idle

def bankOf (addr : BitVec c.addrBits) : BitVec 3 := addr.extractLsb' (14 + 9 + c.addrOffsetWidth) 3

def rowOf (addr : BitVec c.addrBits) : BitVec 14 := addr.extractLsb' (9 + c.addrOffsetWidth) 14

def colOf (addr : BitVec c.addrBits) : BitVec 9 := addr.extractLsb' c.addrOffsetWidth 9

/-- What the control state machine decides. -/
structure Control (c : MemConf) where
  nextState : CtrlState
  nextAddr : BitVec c.addrBits
  cmdBus : DDRCommandBus
  cmdReady : Bool
  dataReady : Bool
  tagEnq : Option (BitVec c.tagBits)
  nextWriteDatas : Fin 3 → BitVec 128
  /-- `dataInBusData` under `dataInBusValid`. -/
  dataInBus : Option (Fin 4 → BitVec 128)

/-- The outputs when nothing happens. -/
def stay : Control c where
  nextState := s.currentState
  nextAddr := s.currentAddr
  cmdBus := ⟨false, .activate, 0, 0, 0⟩
  cmdReady := false
  dataReady := false
  tagEnq := none
  nextWriteDatas := s.writeDatas
  dataInBus := none

/-- Every queue of the read data has room. -/
def readRoom : Bool := decide (∀ k, (s.readDataQueues k).enqReady false ⟨none, false⟩ = true)

/-- A beat of a write is kept. -/
def keepBeat (k : ℕ) (next : CtrlState) : Control c :=
  match i.memData with
  | some data =>
    { stay s with
      nextState := next
      dataReady := i.fireTgtCycle
      nextWriteDatas := fun j => if j.val = k then data else s.writeDatas j }
  | none => stay s

/-- The control state machine. -/
def control : Control c :=
  match s.currentState with
  | .idle =>
    match i.memCmd with
    | some cmd =>
      if readRoom s && s.timer.activateRdy i.params then
        { stay s with
          nextState := if cmd.rw then .writeRowOpened else .readRowOpened
          nextAddr := cmd.addr
          cmdBus := ⟨true, .activate, bankOf cmd.addr, rowOf cmd.addr, 0⟩
          cmdReady := i.fireTgtCycle
          tagEnq := if !cmd.rw && i.fireTgtCycle then some cmd.tag else none }
      else stay s
    | none => stay s
  | .readRowOpened =>
    if s.timer.columnRdy i.params then
      { stay s with
        nextState := .colOpened
        cmdBus := ⟨true, .read, bankOf s.currentAddr, 0, colOf s.currentAddr⟩ }
    else stay s
  | .colOpened =>
    if s.timer.prechargeRdy i.params then
      { stay s with
        nextState := .idle
        cmdBus := ⟨true, .precharge, bankOf s.currentAddr, rowOf s.currentAddr, 0⟩ }
    else stay s
  | .writeRowOpened => keepBeat s i 0 .writeData1
  | .writeData1 => keepBeat s i 1 .writeData2
  | .writeData2 => keepBeat s i 2 .writeData3
  | .writeData3 =>
    match i.memData with
    | some data =>
      if s.timer.columnRdy i.params then
        { stay s with
          nextState := .colOpened
          cmdBus := ⟨true, .write, bankOf s.currentAddr, 0, colOf s.currentAddr⟩
          dataReady := i.fireTgtCycle
          dataInBus := some fun k => if h : k.val < 3 then s.writeDatas ⟨k, h⟩ else data }
      else stay s
    | none => stay s

/-- `readDataAvail`: the last word of a line is there, and the seven before it. -/
def readDataAvail : Bool :=
  i.fireTgtCycle && i.readDataBus.valid &&
    decide (∀ k < burstLength - 1, (s.readDataShiftRegs k).valid = true)

/-- The words of the line, the last one that came first. -/
def readWord : ℕ → BitVec 64
  | 0 => i.readDataBus.data
  | k + 1 => (s.readDataShiftRegs k).data

/-- `readDataQueues(k).io.deq.bits`. -/
def readBeat (k : Fin 4) : BitVec 128 := (s.readDataQueues k).ram (s.readDataQueues k).ptrs.deq

/-- What the handler of the read data decides. -/
structure ReadHandler (c : MemConf) where
  nextState : ReadState
  /-- `io.mem_resp_queue`, which is valid in a target cycle only. -/
  resp : Option (MemResp c)
  /-- The queues of the tags and of the beats are emptied by one. -/
  deqReady : Bool

/-- Beat `k` goes out with the oldest tag. -/
def giveBeat (k : Fin 4) (next : ReadState) (last : Bool) : ReadHandler c where
  nextState := next
  resp :=
    if i.fireTgtCycle then some ⟨readBeat s k, s.readTagQueue.ram s.readTagQueue.ptrs.deq⟩
    else none
  deqReady := last && i.fireTgtCycle

/-- The read data handler. -/
def readHandler : ReadHandler c :=
  match s.rHCurrentState with
  | .rHIdle =>
    if ((s.readDataQueues 0).deq false ⟨none, false⟩).isSome && i.respReady then
      giveBeat s i 0 .rHEnq1 false
    else ⟨.rHIdle, none, false⟩
  | .rHEnq1 => if i.respReady then giveBeat s i 1 .rHEnq2 false else ⟨.rHEnq1, none, false⟩
  | .rHEnq2 => if i.respReady then giveBeat s i 2 .rHEnq3 false else ⟨.rHEnq2, none, false⟩
  | .rHEnq3 => if i.respReady then giveBeat s i 3 .rHIdle true else ⟨.rHEnq3, none, false⟩

/-- `io.DRAMModel.writeDataBus`. -/
def writeDataBus : DDRDataBus := s.dataInBusRegs (tWL + burstLength - 2)

/-- The write data delay chain in the next target cycle. -/
def nextDataInBus (dataInBus : Option (Fin 4 → BitVec 128)) (regs : ℕ → DDRDataBus) (k : ℕ) :
    DDRDataBus :=
  match dataInBus with
  | some beats => if k < burstLength then ⟨true, lineWord beats k⟩ else regs (k - 1)
  | none => if k = 0 then ⟨false, (regs 0).data⟩ else regs (k - 1)

/-- What goes into the queue of the tags, and what the handler takes from it. -/
def tagIn : QueueInput (BitVec c.tagBits) := ⟨(control s i).tagEnq, (readHandler s i).deqReady⟩

/-- The same for the queue of a beat. -/
def dataIn (k : Fin 4) : QueueInput (BitVec 128) :=
  ⟨if readDataAvail s i then some (lineBeat (readWord s i) k) else none,
    (readHandler s i).deqReady⟩

/-- A register that moves in a target cycle only. -/
def onFire {α : Type} (next old : α) : α := if i.fireTgtCycle then next else old

/-- One host cycle. -/
def next : MemControllerState c where
  timer := MemControllerTimer.next i.params i.fireTgtCycle s.timer
    ((control s i).cmdBus.bankCmd (control s i).cmdBus.valid)
  currentAddr := onFire i (control s i).nextAddr s.currentAddr
  readTagQueue := s.readTagQueue.next false false (tagIn s i)
  readDataQueues k := (s.readDataQueues k).next false false (dataIn s i k)
  readDataShiftRegs := onFire i
    (fun k => if k = 0 then i.readDataBus else s.readDataShiftRegs (k - 1)) s.readDataShiftRegs
  rHCurrentState := onFire i (readHandler s i).nextState s.rHCurrentState
  dataInBusRegs := onFire i (nextDataInBus (control s i).dataInBus s.dataInBusRegs) s.dataInBusRegs
  currentState := onFire i (control s i).nextState s.currentState
  writeDatas := onFire i (control s i).nextWriteDatas s.writeDatas

/-! ### What the control state machine does -/

/-- What is open in the DRAM. -/
inductive Phase
  | closed
  | row
  | col
  deriving DecidableEq

/-- What the control state machine has opened. -/
def phase : CtrlState → Phase
  | .idle => .closed
  | .colOpened => .col
  | _ => .row

/-- No command: what is open stays open. -/
structure Waits : Prop where
  valid : (control s i).cmdBus.valid = false
  phase : phase (control s i).nextState = phase s.currentState
  addr : (control s i).nextAddr = s.currentAddr
  dataInBus : (control s i).dataInBus = none

/-- A request is taken and its row is opened. -/
structure Activates : Prop where
  idle : s.currentState = .idle
  rdy : s.timer.activateRdy i.params = true
  valid : (control s i).cmdBus.valid = true
  cmd : (control s i).cmdBus.cmd = .activate
  bank : (control s i).cmdBus.bankAddr = bankOf (control s i).nextAddr
  phase : phase (control s i).nextState = .row
  dataInBus : (control s i).dataInBus = none

/-- The column is read, or it is written and the data go into the delay chain. -/
structure Accesses : Prop where
  row : MemController.phase s.currentState = .row
  rdy : s.timer.columnRdy i.params = true
  valid : (control s i).cmdBus.valid = true
  cmd : (control s i).cmdBus.cmd = .read ∧ (control s i).dataInBus = none ∨
    (control s i).cmdBus.cmd = .write ∧ ∃ beats, (control s i).dataInBus = some beats
  bank : (control s i).cmdBus.bankAddr = bankOf s.currentAddr
  next : (control s i).nextState = .colOpened
  addr : (control s i).nextAddr = s.currentAddr

/-- The row is closed. -/
structure Closes : Prop where
  col : s.currentState = .colOpened
  rdy : s.timer.prechargeRdy i.params = true
  valid : (control s i).cmdBus.valid = true
  cmd : (control s i).cmdBus.cmd = .precharge
  bank : (control s i).cmdBus.bankAddr = bankOf s.currentAddr
  next : (control s i).nextState = .idle
  addr : (control s i).nextAddr = s.currentAddr
  dataInBus : (control s i).dataInBus = none

variable {s i}

theorem waits_of_stay (h : control s i = stay s) : Waits s i := by
  refine ⟨?_, ?_, ?_, ?_⟩ <;> rw [h] <;> rfl

theorem waits_of_keepBeat {k : ℕ} {next : CtrlState} (h : control s i = keepBeat s i k next)
    (hphase : phase next = phase s.currentState) : Waits s i := by
  rw [keepBeat] at h
  cases hd : i.memData with
  | none =>
    rw [hd] at h
    exact waits_of_stay h
  | some data =>
    rw [hd] at h
    exact ⟨by rw [h]; rfl, by rw [h]; exact hphase, by rw [h]; rfl, by rw [h]; rfl⟩

/-- **All that the control state machine can do.** -/
theorem control_cases : Waits s i ∨ Activates s i ∨ Accesses s i ∨ Closes s i := by
  cases hs : s.currentState with
  | idle =>
    cases hc : i.memCmd with
    | none =>
      have h : control s i = stay s := by simp only [control, hs, hc]
      exact .inl (waits_of_stay h)
    | some cmd =>
      by_cases hrdy : (readRoom s && s.timer.activateRdy i.params) = true
      · refine .inr (.inl ⟨hs, (Bool.and_eq_true_iff.mp hrdy).2, ?_, ?_, ?_, ?_, ?_⟩) <;>
          simp only [control, hs, hc, hrdy, if_true]
        · cases cmd.rw <;> rfl
        · rfl
      · have h : control s i = stay s := by
          simp only [control, hs, hc, hrdy]
          rfl
        exact .inl (waits_of_stay h)
  | readRowOpened =>
    by_cases hrdy : s.timer.columnRdy i.params = true
    · refine .inr (.inr (.inl ⟨by rw [hs]; rfl, hrdy, ?_, .inl ⟨?_, ?_⟩, ?_, ?_, ?_⟩)) <;>
        simp only [control, hs, hrdy, if_true] <;> rfl
    · have h : control s i = stay s := by
        simp only [control, hs, hrdy]
        rfl
      exact .inl (waits_of_stay h)
  | colOpened =>
    by_cases hrdy : s.timer.prechargeRdy i.params = true
    · refine .inr (.inr (.inr ⟨hs, hrdy, ?_, ?_, ?_, ?_, ?_, ?_⟩)) <;>
        simp only [control, hs, hrdy, if_true] <;> rfl
    · have h : control s i = stay s := by
        simp only [control, hs, hrdy]
        rfl
      exact .inl (waits_of_stay h)
  | writeRowOpened =>
    have h : control s i = keepBeat s i 0 .writeData1 := by simp only [control, hs]
    exact .inl (waits_of_keepBeat h (by rw [hs]; rfl))
  | writeData1 =>
    have h : control s i = keepBeat s i 1 .writeData2 := by simp only [control, hs]
    exact .inl (waits_of_keepBeat h (by rw [hs]; rfl))
  | writeData2 =>
    have h : control s i = keepBeat s i 2 .writeData3 := by simp only [control, hs]
    exact .inl (waits_of_keepBeat h (by rw [hs]; rfl))
  | writeData3 =>
    cases hd : i.memData with
    | none =>
      have h : control s i = stay s := by simp only [control, hs, hd]
      exact .inl (waits_of_stay h)
    | some data =>
      by_cases hrdy : s.timer.columnRdy i.params = true
      · have hbeats : ∃ beats, (control s i).dataInBus = some beats := by
          simp only [control, hs, hd, hrdy, if_true]
          exact ⟨_, rfl⟩
        refine .inr (.inr (.inl ⟨by rw [hs]; rfl, hrdy, ?_, .inr ⟨?_, hbeats⟩, ?_, ?_, ?_⟩)) <;>
          simp only [control, hs, hd, hrdy, if_true]
        rfl
      · have h : control s i = stay s := by
          simp only [control, hs, hd, hrdy]
          rfl
        exact .inl (waits_of_stay h)

end MemController

end Dram

end RiscvSoc
