import Mathlib.Data.Nat.Notation

/-!
# The state machine of a DRAM bank

A bank has a row open or not, and it counts the cycles since the last events that the timing
parameters are about. A command that comes too early leads to an error state, which is never left.

The memory controller has the same machine, `MemControllerTimer`, to know when a command may be
given. The two differ in one thing: where a bank ignores a command that makes no sense in its state,
the timer goes to an error state. So they are one definition here, with a flag.
-/

namespace RiscvSoc

namespace Dram

/-- `BankParameterIO`: the timing parameters, in cycles. -/
structure BankParams where
  tRAS : BitVec 8
  tRCD : BitVec 8
  tRP : BitVec 8
  tCCD : BitVec 8
  tRTP : BitVec 8
  tWTR : BitVec 8
  tWR : BitVec 8

/-- Where a counter stops: a cycle less than the parameter, wrapped around for zero. -/
def limit (param : BitVec 8) : ℕ := (param - 1).toNat

/-- `BankCmdIO`. -/
structure BankCmd where
  valid : Bool
  activate : Bool
  read : Bool
  write : Bool
  precharge : Bool
  rowAddr : BitVec 14
  colAddr : BitVec 9

inductive BankFsm
  | rowClosed
  | rowOpened
  | colOpenedRead
  | colOpenedWrite
  | invalidCmd
  | tRASViolation
  | tRCDViolation
  | tRPViolation
  | tCCDViolation
  | tRTPViolation
  | tWTRViolation
  | tWRViolation
  deriving DecidableEq

/-- The states that a bank goes to when a command is wrong. -/
def BankFsm.isError : BankFsm → Bool
  | rowClosed | rowOpened | colOpenedRead | colOpenedWrite => false
  | _ => true

/-- A row is open. -/
def BankFsm.opened : BankFsm → Bool
  | rowOpened | colOpenedRead | colOpenedWrite => true
  | _ => false

/-- A column of the row was used. -/
def BankFsm.colOpened : BankFsm → Bool
  | colOpenedRead | colOpenedWrite => true
  | _ => false

structure BankState where
  fsm : BankFsm
  currentRowAddr : BitVec 14
  prevWriteColAddr : BitVec 9
  prevWriteColAddrVal : Bool
  tRASCounter : ℕ
  tRCDCounter : ℕ
  tRPCounter : ℕ
  tCCDCounter : ℕ
  tRTPCounter : ℕ
  tWTRCounter : ℕ
  tWRCounter : ℕ

/-- A counter in the next cycle. -/
def tick (reset increment : Bool) (limit counter : ℕ) : ℕ :=
  if reset then 0 else if increment && decide (counter < limit) then counter + 1 else counter

theorem tick_le {reset increment : Bool} {limit counter : ℕ} (h : counter ≤ limit) :
    tick reset increment limit counter ≤ limit := by
  rw [tick]
  split
  · exact Nat.zero_le _
  · split
    · rename_i hlt
      exact of_decide_eq_true (Bool.and_eq_true_iff.mp hlt).2
    · exact h

@[simp] theorem tick_reset {increment : Bool} {limit counter : ℕ} :
    tick true increment limit counter = 0 :=
  rfl

@[simp] theorem tick_idle {limit counter : ℕ} : tick false false limit counter = counter := rfl

namespace BankState

/-- The state after reset. -/
def init : BankState where
  fsm := .rowClosed
  currentRowAddr := 0
  prevWriteColAddr := 0
  prevWriteColAddrVal := false
  tRASCounter := 0
  tRCDCounter := 0
  tRPCounter := 0
  tCCDCounter := 0
  tRTPCounter := 0
  tWTRCounter := 0
  tWRCounter := 0

variable (strict : Bool) (p : BankParams) (s : BankState) (i : BankCmd)

def tRASOk : Bool := decide (s.tRASCounter = limit p.tRAS)

def tRCDOk : Bool := decide (s.tRCDCounter = limit p.tRCD)

def tRPOk : Bool := decide (s.tRPCounter = limit p.tRP)

def tCCDOk : Bool := decide (s.tCCDCounter = limit p.tCCD)

def tRTPOk : Bool := decide (s.tRTPCounter = limit p.tRTP)

def tWTROk : Bool := decide (s.tWTRCounter = limit p.tWTR)

def tWROk : Bool := decide (s.tWRCounter = limit p.tWR)

/-- What a command does that fits none of the branches. -/
def otherwise : BankFsm := if strict then .invalidCmd else s.fsm

/-- `nextState`, under a valid command. The choice between two errors compares with the parameter
itself, and not with the limit. -/
def nextFsm : BankFsm :=
  match s.fsm with
  | .rowClosed =>
    if i.activate then if s.tRPOk p then .rowOpened else .tRPViolation
    else if i.precharge then .rowClosed
    else s.otherwise strict
  | .rowOpened =>
    if i.precharge then if s.tRASOk p then .rowClosed else .tRASViolation
    else if i.read then if s.tRCDOk p then .colOpenedRead else .tRCDViolation
    else if i.write then if s.tRCDOk p then .colOpenedWrite else .tRCDViolation
    else s.otherwise strict
  | .colOpenedRead =>
    if i.precharge then
      if s.tRASOk p && s.tRTPOk p then .rowClosed
      else if s.tRTPCounter ≠ p.tRTP.toNat then .tRTPViolation
      else .tRASViolation
    else if i.read then if s.tCCDOk p then .colOpenedRead else .tCCDViolation
    else if i.write then if s.tCCDOk p then .colOpenedWrite else .tCCDViolation
    else s.otherwise strict
  | .colOpenedWrite =>
    if i.precharge then
      if s.tRASOk p && s.tWROk p then .rowClosed
      else if s.tWRCounter ≠ p.tWR.toNat then .tWRViolation
      else .tRASViolation
    else if i.write then if s.tCCDOk p then .colOpenedWrite else .tCCDViolation
    else if i.read then
      if s.prevWriteColAddrVal && decide (s.prevWriteColAddr = i.colAddr) then
        if s.tWTROk p && s.tCCDOk p then .colOpenedRead
        else if s.tWTRCounter ≠ p.tWTR.toNat then .tWTRViolation
        else .tCCDViolation
      else if s.tCCDOk p then .colOpenedRead
      else .tCCDViolation
    else s.otherwise strict
  | error => error

/-- `nextState`. -/
def nextState : BankFsm := if i.valid then s.nextFsm strict p i else s.fsm

/-- A write that is taken: its column is remembered. -/
def noteWrite : Bool :=
  i.valid && match s.fsm with
    | .rowOpened => !i.precharge && !i.read && i.write && s.tRCDOk p
    | .colOpenedRead => !i.precharge && !i.read && i.write && s.tCCDOk p
    | .colOpenedWrite => !i.precharge && i.write && s.tCCDOk p
    | _ => false

/-- The column of the last write is forgotten. -/
def forgetWrite : Bool :=
  i.valid && decide (s.fsm = .colOpenedWrite) &&
    (i.precharge && !(s.tRASOk p && s.tWROk p) && decide (s.tWRCounter ≠ p.tWR.toNat) ||
      !i.precharge && !i.write && i.read && s.prevWriteColAddrVal &&
        decide (s.prevWriteColAddr = i.colAddr) && s.tWTROk p && s.tCCDOk p)

/-- One target cycle. -/
def next : BankState where
  fsm := s.nextState strict p i
  currentRowAddr :=
    if i.valid && decide (s.fsm = .rowClosed) && i.activate && s.tRPOk p then i.rowAddr
    else s.currentRowAddr
  prevWriteColAddr := if s.noteWrite p i then i.colAddr else s.prevWriteColAddr
  prevWriteColAddrVal :=
    if s.noteWrite p i then true else s.prevWriteColAddrVal && !s.forgetWrite p i
  tRASCounter :=
    tick (s.fsm.opened && i.valid && decide (s.nextState strict p i = .rowClosed)) s.fsm.opened
      (limit p.tRAS) s.tRASCounter
  tRCDCounter :=
    tick (decide (s.fsm = .rowOpened) && i.valid) (decide (s.fsm = .rowOpened)) (limit p.tRCD)
      s.tRCDCounter
  tRPCounter :=
    tick (decide (s.fsm = .rowClosed) && i.valid) (decide (s.fsm = .rowClosed)) (limit p.tRP)
      s.tRPCounter
  tCCDCounter := tick (s.fsm.colOpened && i.valid) s.fsm.colOpened (limit p.tCCD) s.tCCDCounter
  tRTPCounter :=
    tick (s.fsm.opened && i.valid && decide (s.nextState strict p i = .colOpenedRead))
      (decide (s.fsm = .colOpenedRead)) (limit p.tRTP) s.tRTPCounter
  tWTRCounter :=
    tick (decide (s.fsm = .colOpenedWrite) && i.valid) (decide (s.fsm = .colOpenedWrite))
      (limit p.tWTR) s.tWTRCounter
  tWRCounter :=
    tick (s.fsm.opened && i.valid && decide (s.nextState strict p i = .colOpenedWrite))
      (decide (s.fsm = .colOpenedWrite)) (limit p.tWR) s.tWRCounter

/-! ### What the timer says -/

/-- `activate_rdy`. -/
def activateRdy : Bool := decide (s.fsm = .rowClosed) && s.tRPOk p

/-- `precharge_rdy`. -/
def prechargeRdy : Bool :=
  match s.fsm with
  | .rowOpened => s.tRASOk p
  | .colOpenedRead => s.tRASOk p && s.tRTPOk p
  | .colOpenedWrite => s.tRASOk p && s.tWROk p
  | _ => false

/-- `read_rdy`, and `write_rdy`, which is the same. -/
def columnRdy : Bool :=
  match s.fsm with
  | .rowOpened => s.tRCDOk p
  | .colOpenedRead | .colOpenedWrite => s.tCCDOk p
  | _ => false

end BankState

/-- `DRAMBank`: a bank that sees the commands with its number. -/
def DRAMBank.next (p : BankParams) (fire : Bool) (s : BankState) (i : BankCmd) : BankState :=
  if fire then s.next false p i else s

/-- `MemControllerTimer`: the same machine, which sees all commands. -/
def MemControllerTimer.next (p : BankParams) (fire : Bool) (s : BankState) (i : BankCmd) :
    BankState :=
  if fire then s.next true p i else s

namespace BankState

variable {strict : Bool} {p : BankParams} {s t b : BankState} {i : BankCmd}

/-! ### Without a command -/

theorem nextState_idle (hi : i.valid = false) : s.nextState strict p i = s.fsm := by
  rw [nextState, hi]
  rfl

/-! ### The timer and the bank that is open -/

/-- The timer `t` has the state of the open bank `b`. A counter that starts when a column is opened
counts from there. -/
structure Agrees (t b : BankState) : Prop where
  fsm : b.fsm = t.fsm
  opened : t.fsm.opened = true
  tRAS : b.tRASCounter = t.tRASCounter
  tRCD : b.tRCDCounter = t.tRCDCounter
  tCCD : b.tCCDCounter = t.tCCDCounter
  tRTP : t.fsm = .colOpenedRead → b.tRTPCounter = t.tRTPCounter
  tWR : t.fsm = .colOpenedWrite → b.tWRCounter = t.tWRCounter

/-- The counters that start from zero when a row is opened. -/
structure Rested (s : BankState) : Prop where
  fsm : s.fsm = .rowClosed
  tRAS : s.tRASCounter = 0
  tRCD : s.tRCDCounter = 0
  tCCD : s.tCCDCounter = 0

theorem Agrees.idle (h : Agrees t b) (hi : i.valid = false) {i' : BankCmd}
    (hi' : i'.valid = false) : Agrees (t.next true p i) (b.next false p i') := by
  obtain ⟨hfsm, hopened, hras, hrcd, hccd, hrtp, hwr⟩ := h
  constructor <;> simp [next, nextState, hi, hi', hfsm, hopened, hras, hrcd, hccd]
  · intro h
    rw [hrtp h]
  · intro h
    rw [hwr h]

theorem Rested.activate (ht : Rested t) (hb : Rested b) (hvalid : i.valid = true)
    (hact : i.activate = true) (htRP : t.tRPOk p = true) (hbRP : b.tRPOk p = true) :
    Agrees (t.next true p i) (b.next false p i) ∧ (t.next true p i).fsm = .rowOpened := by
  obtain ⟨htf, htras, htrcd, htccd⟩ := ht
  obtain ⟨hbf, hbras, hbrcd, hbccd⟩ := hb
  have htn : t.nextState true p i = .rowOpened := by
    simp [nextState, nextFsm, hvalid, htf, hact, htRP]
  have hbn : b.nextState false p i = .rowOpened := by
    simp [nextState, nextFsm, hvalid, hbf, hact, hbRP]
  refine ⟨?_, htn⟩
  constructor <;> simp [next, htn, hbn, htf, hbf, htras, htrcd, htccd, hbras, hbrcd, hbccd, tick,
    BankFsm.opened, BankFsm.colOpened]

theorem Agrees.read (h : Agrees t b) (hrow : t.fsm = .rowOpened) (hvalid : i.valid = true)
    (hread : i.read = true) (hpre : i.precharge = false) (hrdy : t.columnRdy p = true) :
    Agrees (t.next true p i) (b.next false p i) ∧ (t.next true p i).fsm = .colOpenedRead := by
  have hrcd : t.tRCDOk p = true := by rwa [columnRdy, hrow] at hrdy
  have hbrcd : b.tRCDOk p = true := by rwa [tRCDOk, h.tRCD]
  have htn : t.nextState true p i = .colOpenedRead := by
    simp [nextState, nextFsm, hvalid, hrow, hpre, hread, hrcd]
  have hbn : b.nextState false p i = .colOpenedRead := by
    simp [nextState, nextFsm, hvalid, h.fsm, hrow, hpre, hread, hbrcd]
  refine ⟨?_, htn⟩
  constructor <;> simp [next, htn, hbn, h.fsm, hrow, h.tRAS, h.tCCD, hvalid, tick,
    BankFsm.opened, BankFsm.colOpened]

theorem Agrees.write (h : Agrees t b) (hrow : t.fsm = .rowOpened) (hvalid : i.valid = true)
    (hwrite : i.write = true) (hread : i.read = false) (hpre : i.precharge = false)
    (hrdy : t.columnRdy p = true) :
    Agrees (t.next true p i) (b.next false p i) ∧ (t.next true p i).fsm = .colOpenedWrite := by
  have hrcd : t.tRCDOk p = true := by rwa [columnRdy, hrow] at hrdy
  have hbrcd : b.tRCDOk p = true := by rwa [tRCDOk, h.tRCD]
  have htn : t.nextState true p i = .colOpenedWrite := by
    simp [nextState, nextFsm, hvalid, hrow, hpre, hread, hwrite, hrcd]
  have hbn : b.nextState false p i = .colOpenedWrite := by
    simp [nextState, nextFsm, hvalid, h.fsm, hrow, hpre, hread, hwrite, hbrcd]
  refine ⟨?_, htn⟩
  constructor <;> simp [next, htn, hbn, h.fsm, hrow, h.tRAS, h.tCCD, hvalid, tick,
    BankFsm.opened, BankFsm.colOpened]

/-- The timer lets the row be closed. The counters that count while a row is open are at zero
again, the one of the row's opening since the column was opened. -/
theorem Agrees.precharge (h : Agrees t b) (hcol : t.fsm.colOpened = true)
    (hrcd : t.tRCDCounter = 0) (hvalid : i.valid = true) (hpre : i.precharge = true)
    (hrdy : t.prechargeRdy p = true) :
    Rested (t.next true p i) ∧ Rested (b.next false p i) := by
  have hstates : t.nextState true p i = .rowClosed ∧ b.nextState false p i = .rowClosed := by
    cases hf : t.fsm <;> rw [hf] at hcol <;> try cases hcol
    · rw [prechargeRdy, hf, Bool.and_eq_true] at hrdy
      have hras : b.tRASOk p = true := by rw [tRASOk, h.tRAS]; exact hrdy.1
      have hrtp : b.tRTPOk p = true := by rw [tRTPOk, h.tRTP hf]; exact hrdy.2
      simp [nextState, nextFsm, hvalid, h.fsm, hf, hpre, hrdy.1, hrdy.2, hras, hrtp]
    · rw [prechargeRdy, hf, Bool.and_eq_true] at hrdy
      have hras : b.tRASOk p = true := by rw [tRASOk, h.tRAS]; exact hrdy.1
      have hwr : b.tWROk p = true := by rw [tWROk, h.tWR hf]; exact hrdy.2
      simp [nextState, nextFsm, hvalid, h.fsm, hf, hpre, hrdy.1, hrdy.2, hras, hwr]
  have hne : t.fsm ≠ .rowOpened := by
    intro hf
    rw [hf] at hcol
    cases hcol
  constructor
  · refine ⟨hstates.1, ?_, ?_, ?_⟩ <;>
      simp [next, hstates.1, h.opened, hcol, hrcd, hvalid, hne, tick]
  · refine ⟨hstates.2, ?_, ?_, ?_⟩ <;>
      simp [next, hstates.2, h.fsm, h.opened, hcol, h.tRCD, hrcd, hvalid, hne, tick]

/-! ### Banks that are closed -/

theorem Rested.idle (h : Rested s) (hi : i.valid = false) : Rested (s.next strict p i) := by
  obtain ⟨hfsm, hras, hrcd, hccd⟩ := h
  constructor <;> simp [next, nextState, hi, hfsm, hras, hrcd, hccd, tick, BankFsm.opened,
    BankFsm.colOpened]

theorem tRP_le (h : s.tRPCounter ≤ limit p.tRP) :
    (s.next strict p i).tRPCounter ≤ limit p.tRP := tick_le h

/-- While no row is open, the timer's count stays behind the one of any bank. -/
theorem tRP_idle (ht : t.fsm = .rowClosed) (hb : b.fsm = .rowClosed) (hi : i.valid = false)
    (hle : t.tRPCounter ≤ b.tRPCounter) (hlimit : b.tRPCounter ≤ limit p.tRP)
    {strict' : Bool} {i' : BankCmd} (hi' : i'.valid = false) :
    (t.next strict p i).tRPCounter ≤ (b.next strict' p i').tRPCounter := by
  simp only [next, ht, hb, hi, hi', tick, Bool.and_false, decide_true, Bool.true_and,
    Bool.false_eq_true, if_false, decide_eq_true_eq]
  split <;> split <;> omega

/-- A row that is opened sets the timer's count back, and while it is open, nothing counts. -/
theorem tRP_zero (h : s.fsm = .rowClosed ∧ i.valid = true ∨
    s.fsm ≠ .rowClosed ∧ s.tRPCounter = 0) : (s.next strict p i).tRPCounter = 0 := by
  rcases h with ⟨hf, hi⟩ | ⟨hf, hc⟩
  · simp [next, hf, hi, tick]
  · simp [next, hf, hc, tick]

/-- Reading or writing a column sets the count of the row's opening back. -/
theorem tRCD_zero (h : s.fsm = .rowOpened ∧ i.valid = true ∨
    s.fsm ≠ .rowOpened ∧ s.tRCDCounter = 0) : (s.next strict p i).tRCDCounter = 0 := by
  rcases h with ⟨hf, hi⟩ | ⟨hf, hc⟩
  · simp [next, hf, hi, tick]
  · simp [next, hf, hc, tick]

end BankState

end Dram

end RiscvSoc
