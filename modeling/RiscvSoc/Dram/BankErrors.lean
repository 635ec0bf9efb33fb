import RiscvSoc.Dram.Bank
import RiscvSoc.Lib.Machine

/-!
# The errors a bank reports

`DRAMBank` has an output for each timing parameter. A command that comes too early leads to the
error state of a parameter, and the output of the state is up from the next target cycle on.

Not every violation is reported, and not every one under its own name. A command that ends a column
access is measured against several parameters, and which one it was is decided by comparing a
counter with the parameter, where it should be the limit of the counter, one less. The counter never
gets there, so the first of the two is blamed. The output of `tWR` is never up, since the last
branch asks for the state of `tWTR` once more. And only the counters of the last column access
count: after a write nobody asks for `tRTP`, after a read nobody for `tWR` and `tWTR`.

## What the parameters are about

Times are target cycles; the reset counts as a precharge in the cycle before the first one. A row is
opened `tRP` after a precharge, read or written `tRCD` after it was opened, closed `tRAS` after it
was opened, `tRTP` after its last read and `tWR` after its last write. Two columns of an open row
are used `tCCD` apart, and the column written last is read `tWTR` after that.
-/

namespace RiscvSoc

namespace Dram

attribute [simp] BankFsm.opened BankFsm.colOpened

/-! ### Outputs -/

/-- `BankErrorIO`. -/
structure BankErrors where
  invalidCmd : Bool
  tRASViolation : Bool
  tRCDViolation : Bool
  tRPViolation : Bool
  tCCDViolation : Bool
  tRTPViolation : Bool
  tWTRViolation : Bool
  tWRViolation : Bool
  deriving DecidableEq

def BankErrors.none : BankErrors := ⟨false, false, false, false, false, false, false, false⟩

/-- What is up in a state. That of `tWTR` is asked for twice, that of `tWR` not at all. -/
def BankFsm.errors : BankFsm → BankErrors
  | .invalidCmd => { BankErrors.none with invalidCmd := true }
  | .tRASViolation => { BankErrors.none with tRASViolation := true }
  | .tRCDViolation => { BankErrors.none with tRCDViolation := true }
  | .tRPViolation => { BankErrors.none with tRPViolation := true }
  | .tCCDViolation => { BankErrors.none with tCCDViolation := true }
  | .tRTPViolation => { BankErrors.none with tRTPViolation := true }
  | .tWTRViolation => { BankErrors.none with tWTRViolation := true }
  | .tWRViolation | .rowClosed | .rowOpened | .colOpenedRead | .colOpenedWrite => BankErrors.none

/-- `io.errors`. -/
def BankState.errors (s : BankState) : BankErrors := s.fsm.errors

/-! ### Commands and their times -/

inductive BankCommand
  | activate (rowAddr : BitVec 14)
  | read (colAddr : BitVec 9)
  | write (colAddr : BitVec 9)
  | precharge
  deriving DecidableEq

/-- The command on the wires. -/
def BankCommand.cmd : BankCommand → BankCmd
  | activate rowAddr => ⟨true, true, false, false, false, rowAddr, 0⟩
  | read colAddr => ⟨true, false, true, false, false, 0, colAddr⟩
  | write colAddr => ⟨true, false, false, true, false, 0, colAddr⟩
  | precharge => ⟨true, false, false, false, true, 0, 0⟩

/-- A cycle without a command. -/
def BankCmd.idle : BankCmd := ⟨false, false, false, false, false, 0, 0⟩

@[simp] theorem BankCommand.valid_cmd (c : BankCommand) : c.cmd.valid = true := by cases c <;> rfl

@[simp] theorem BankCmd.valid_idle : idle.valid = false := rfl

/-- The timing parameters. -/
inductive BankTiming
  | tRAS
  | tRCD
  | tRP
  | tCCD
  | tRTP
  | tWTR
  | tWR
  deriving DecidableEq

def BankParams.param (p : BankParams) : BankTiming → BitVec 8
  | .tRAS => p.tRAS
  | .tRCD => p.tRCD
  | .tRP => p.tRP
  | .tCCD => p.tCCD
  | .tRTP => p.tRTP
  | .tWTR => p.tWTR
  | .tWR => p.tWR

/-- The output of one parameter, and no other. -/
def BankErrors.only : BankTiming → BankErrors
  | .tRAS => { BankErrors.none with tRASViolation := true }
  | .tRCD => { BankErrors.none with tRCDViolation := true }
  | .tRP => { BankErrors.none with tRPViolation := true }
  | .tCCD => { BankErrors.none with tCCDViolation := true }
  | .tRTP => { BankErrors.none with tRTPViolation := true }
  | .tWTR => { BankErrors.none with tWTRViolation := true }
  | .tWR => { BankErrors.none with tWRViolation := true }

/-- What was done with the open row, and when. -/
structure OpenRow where
  activateAt : ℕ
  columnAt : Option ℕ
  readAt : Option ℕ
  /-- The last write, with its column. -/
  writeAt : Option (ℕ × BitVec 9)

structure BankLog where
  cycle : ℕ
  prechargeAt : ℕ
  row : Option OpenRow

namespace BankLog

variable (p : BankParams) (log : BankLog)

/-- After reset. -/
def init : BankLog := ⟨1, 0, none⟩

/-- One target cycle. -/
def next : Option BankCommand → BankLog
  | none => { log with cycle := log.cycle + 1 }
  | some (.activate _) => ⟨log.cycle + 1, log.prechargeAt, some ⟨log.cycle, none, none, none⟩⟩
  | some (.read _) =>
    ⟨log.cycle + 1, log.prechargeAt,
      log.row.map fun r => { r with columnAt := some log.cycle, readAt := some log.cycle }⟩
  | some (.write colAddr) =>
    ⟨log.cycle + 1, log.prechargeAt,
      log.row.map fun r =>
        { r with columnAt := some log.cycle, writeAt := some (log.cycle, colAddr) }⟩
  | some .precharge => ⟨log.cycle + 1, log.cycle, none⟩

/-- The command makes sense: a row is opened when there is none, a column is used when there is. -/
def proper : BankCommand → Bool
  | .activate _ => log.row.isNone
  | .read _ | .write _ => log.row.isSome
  | .precharge => true

/-- From when a parameter is measured for a command. -/
def since (c : BankCommand) : BankTiming → Option ℕ
  | .tRP => match c with
    | .activate _ => some log.prechargeAt
    | _ => none
  | .tRCD => match c with
    | .read _ | .write _ => log.row.map OpenRow.activateAt
    | _ => none
  | .tRAS => match c with
    | .precharge => log.row.map OpenRow.activateAt
    | _ => none
  | .tCCD => match c with
    | .read _ | .write _ => log.row.bind OpenRow.columnAt
    | _ => none
  | .tRTP => match c with
    | .precharge => log.row.bind OpenRow.readAt
    | _ => none
  | .tWR => match c with
    | .precharge => (log.row.bind OpenRow.writeAt).map Prod.fst
    | _ => none
  | .tWTR => match c with
    | .read colAddr =>
      ((log.row.bind OpenRow.writeAt).filter fun w => decide (w.2 = colAddr)).map Prod.fst
    | _ => none

/-- The command comes too early for a parameter. -/
def tooEarly (c : BankCommand) (k : BankTiming) : Bool :=
  (log.since c k).any fun u => decide (log.cycle < u + (p.param k).toNat)

/-- A command that respects everything. -/
def Legal (c : BankCommand) : Prop := log.proper c = true ∧ ∀ k, log.tooEarly p c k = false

/-- A command that is too early for one parameter only. -/
def OnlyEarly (c : BankCommand) (k : BankTiming) : Prop :=
  log.proper c = true ∧ ∀ j, log.tooEarly p c j = decide (j = k)

/-- When the violation of a parameter is reported as what it is. -/
def Told (c : BankCommand) : BankTiming → Prop
  | .tRP | .tRCD => True
  -- before the first column access
  | .tRAS => ∀ r ∈ log.row, r.columnAt = none
  -- not by reading what was written just before
  | .tCCD => ∀ r ∈ log.row, ∀ w ∈ r.writeAt, r.columnAt = some w.1 → c ≠ .read w.2
  -- after a read
  | .tRTP => ∀ r ∈ log.row, r.readAt = r.columnAt
  -- after a write
  | .tWTR => ∀ r ∈ log.row, r.writeAt.map Prod.fst = r.columnAt
  | .tWR => False

end BankLog

open BankLog

/-! ### The bank and its log -/

/-- The inputs of a host cycle. -/
structure BankIn where
  fireTgtCycle : Bool
  cmd : Option BankCommand

namespace DRAMBank

variable (p : BankParams)

/-- The command port. -/
def cmds (c : Option BankCommand) : BankCmd := (c.map BankCommand.cmd).getD .idle

def cycle (s : BankState) (i : BankIn) : BankState := DRAMBank.next p i.fireTgtCycle s (cmds i.cmd)

/-- The bank next to its log. -/
def machine : Machine (BankState × BankLog) BankIn :=
  (Machine.clocked (· = .init) (cycle p)).observe .init fun _ i log =>
    if i.fireTgtCycle then log.next i.cmd else log

/-- The commands so far are legal. -/
def LegalIn (x : BankState × BankLog) (i : BankIn) : Prop :=
  i.fireTgtCycle = true → ∀ c ∈ i.cmd, x.2.Legal p c

/-- The command `c` in a target cycle raises the output of `k` and no other, from then on. -/
def Reports (s : BankState) (c : BankCommand) (k : BankTiming) : Prop :=
  ∀ later : List BankIn,
    (later.foldl (cycle p) (cycle p s ⟨true, some c⟩)).errors = BankErrors.only k

/-! ### Counters and times -/

/-- Every parameter is at least one. -/
def Positive : Prop := ∀ k, p.param k ≠ 0

/-- What a counter says that was set back in cycle `u`. -/
def waited (cycle u : ℕ) (q : BitVec 8) : ℕ := min (cycle - u - 1) (limit q)

theorem limit_succ {q : BitVec 8} (hq : q ≠ 0) : limit q + 1 = q.toNat := by
  have hpos : 0 < q.toNat := by
    rw [Nat.pos_iff_ne_zero]
    intro h
    exact hq (BitVec.eq_of_toNat_eq h)
  rw [limit, BitVec.toNat_sub_of_le (by rw [BitVec.le_def]; exact hpos)]
  exact Nat.sub_add_cancel hpos

theorem decide_waited {cycle u : ℕ} {q : BitVec 8} (hq : q ≠ 0) (hlt : u < cycle) :
    decide (waited cycle u q = limit q) = !decide (cycle < u + q.toNat) := by
  have hlimit := limit_succ hq
  rw [← decide_not]
  refine decide_eq_decide.mpr ?_
  rw [waited]
  omega

theorem waited_ne {cycle u : ℕ} {q : BitVec 8} (hq : q ≠ 0) : waited cycle u q ≠ q.toNat := by
  have hlimit := limit_succ hq
  rw [waited]
  omega

@[simp] theorem waited_start (u : ℕ) (q : BitVec 8) : waited (u + 1) u q = 0 := by
  rw [waited, Nat.add_sub_cancel_left]
  exact Nat.zero_min _

theorem tick_waited {cycle u : ℕ} (hlt : u < cycle) (q : BitVec 8) :
    tick false true (limit q) (waited cycle u q) = waited (cycle + 1) u q := by
  rw [tick, if_neg (by simp), Bool.true_and]
  split
  · rename_i hless
    have hless' := of_decide_eq_true hless
    rw [waited] at hless' ⊢
    rw [waited]
    omega
  · rename_i hdone
    rw [decide_eq_true_eq] at hdone
    rw [waited] at hdone ⊢
    rw [waited]
    omega

variable {p} {s : BankState} {log : BankLog} {c : BankCommand}

/-- The counters of the bank are those of the log. -/
inductive Follows (p : BankParams) (s : BankState) (log : BankLog) : Prop
  | rowClosed (hfsm : s.fsm = .rowClosed) (hrow : log.row = none)
      (hlt : log.prechargeAt < log.cycle)
      (hrp : s.tRPCounter = waited log.cycle log.prechargeAt p.tRP)
      (hras : s.tRASCounter = 0) (hrcd : s.tRCDCounter = 0) (hccd : s.tCCDCounter = 0)
      (hwtr : s.tWTRCounter = 0)
  | rowOpened (u : ℕ) (hfsm : s.fsm = .rowOpened) (hrow : log.row = some ⟨u, none, none, none⟩)
      (hlt : u < log.cycle) (hras : s.tRASCounter = waited log.cycle u p.tRAS)
      (hrcd : s.tRCDCounter = waited log.cycle u p.tRCD) (hrp : s.tRPCounter = 0)
      (hccd : s.tCCDCounter = 0) (hwtr : s.tWTRCounter = 0)
  | colOpenedRead (u v : ℕ) (w : Option (ℕ × BitVec 9)) (hfsm : s.fsm = .colOpenedRead)
      (hrow : log.row = some ⟨u, some v, some v, w⟩) (huv : u + p.tRCD.toNat ≤ v)
      (hlt : v < log.cycle) (hw : ∀ x ∈ w, x.1 < v)
      (hras : s.tRASCounter = waited log.cycle u p.tRAS)
      (hccd : s.tCCDCounter = waited log.cycle v p.tCCD)
      (hrtp : s.tRTPCounter = waited log.cycle v p.tRTP) (hrp : s.tRPCounter = 0)
      (hrcd : s.tRCDCounter = 0) (hwtr : s.tWTRCounter = 0)
  | colOpenedWrite (u v : ℕ) (r : Option ℕ) (hfsm : s.fsm = .colOpenedWrite)
      (hrow : log.row = some ⟨u, some v, r, some (v, s.prevWriteColAddr)⟩)
      (huv : u + p.tRCD.toNat ≤ v) (hlt : v < log.cycle) (hr : ∀ x ∈ r, x < v)
      (hval : s.prevWriteColAddrVal = true)
      (hras : s.tRASCounter = waited log.cycle u p.tRAS)
      (hccd : s.tCCDCounter = waited log.cycle v p.tCCD)
      (hwtr : s.tWTRCounter = waited log.cycle v p.tWTR)
      (hwr : s.tWRCounter = waited log.cycle v p.tWR) (hrp : s.tRPCounter = 0)
      (hrcd : s.tRCDCounter = 0)

/-- Where a command takes the bank. -/
def answer (p : BankParams) (log : BankLog) (c : BankCommand) : BankFsm :=
  let early := log.tooEarly p c
  match log.row, c with
  | none, .activate _ => if early .tRP then .tRPViolation else .rowOpened
  | none, _ => .rowClosed
  | some ⟨_, none, _, _⟩, .precharge => if early .tRAS then .tRASViolation else .rowClosed
  | some ⟨_, none, _, _⟩, .read _ => if early .tRCD then .tRCDViolation else .colOpenedRead
  | some ⟨_, none, _, _⟩, .write _ => if early .tRCD then .tRCDViolation else .colOpenedWrite
  | some ⟨_, some _, _, _⟩, .write _ => if early .tCCD then .tCCDViolation else .colOpenedWrite
  | some ⟨_, some v, _, w⟩, .read colAddr =>
    if w = some (v, colAddr) then
      if early .tWTR || early .tCCD then .tWTRViolation else .colOpenedRead
    else if early .tCCD then .tCCDViolation else .colOpenedRead
  | some ⟨_, some v, r, _⟩, .precharge =>
    if r = some v then if early .tRAS || early .tRTP then .tRTPViolation else .rowClosed
    else if early .tRAS || early .tWR then .tWRViolation else .rowClosed
  | some _, .activate _ => .invalidCmd

theorem decide_counter (hpos : Positive p) {k : BankTiming} {u n : ℕ}
    (hsince : log.since c k = some u) (hlt : u < log.cycle)
    (hn : n = waited log.cycle u (p.param k)) :
    decide (n = limit (p.param k)) = !log.tooEarly p c k := by
  rw [hn, decide_waited (hpos k) hlt, tooEarly, hsince]
  rfl

/-! ### The answer to a command -/

attribute [simp] BankState.nextFsm BankState.next BankLog.next answer BankLog.Told BankFsm.errors
  BankErrors.only BankErrors.none

section

variable (h : Follows p s log) (hpos : Positive p)
include h hpos

theorem Follows.nextState_activate {rowAddr : BitVec 14}
    (hproper : log.proper (.activate rowAddr) = true) :
    s.nextState false p (BankCommand.activate rowAddr).cmd = answer p log (.activate rowAddr) := by
  cases h with
  | rowClosed hfsm hrow hlt hrp =>
    have hok : s.tRPOk p = !log.tooEarly p (.activate rowAddr) .tRP :=
      decide_counter (k := .tRP) hpos rfl hlt hrp
    cases hearly : log.tooEarly p (.activate rowAddr) .tRP <;>
      simp [BankState.nextState, hfsm, BankCommand.cmd, hrow, hok, hearly]
  | rowOpened _ _ hrow | colOpenedRead _ _ _ _ hrow | colOpenedWrite _ _ _ _ hrow =>
    rw [BankLog.proper, hrow] at hproper
    cases hproper

theorem Follows.nextState_precharge :
    s.nextState false p BankCommand.precharge.cmd = answer p log .precharge := by
  cases h with
  | rowClosed hfsm hrow =>
    simp [BankState.nextState, hfsm, BankCommand.cmd, hrow]
  | rowOpened u hfsm hrow hlt hras =>
    have hok : s.tRASOk p = !log.tooEarly p .precharge .tRAS :=
      decide_counter (k := .tRAS) hpos (by rw [since, hrow]; rfl) hlt hras
    cases hearly : log.tooEarly p .precharge .tRAS <;>
      simp [BankState.nextState, hfsm, BankCommand.cmd, hrow, hok, hearly]
  | colOpenedRead u v w hfsm hrow huv hlt hw hras hccd hrtp =>
    have hult : u < log.cycle := by omega
    have hrasOk : s.tRASOk p = !log.tooEarly p .precharge .tRAS :=
      decide_counter (k := .tRAS) hpos (by rw [since, hrow]; rfl) hult hras
    have hrtpOk : s.tRTPOk p = !log.tooEarly p .precharge .tRTP :=
      decide_counter (k := .tRTP) hpos (by rw [since, hrow]; rfl) hlt hrtp
    have hne : s.tRTPCounter ≠ p.tRTP.toNat := hrtp ▸ waited_ne (hpos .tRTP)
    cases hras' : log.tooEarly p .precharge .tRAS <;>
      cases hrtp' : log.tooEarly p .precharge .tRTP <;>
      simp [BankState.nextState, hfsm, BankCommand.cmd, hrow, hrasOk, hrtpOk, hne, hras', hrtp']
  | colOpenedWrite u v r hfsm hrow huv hlt hr hval hras hccd hwtr hwr =>
    have hult : u < log.cycle := by omega
    have hrasOk : s.tRASOk p = !log.tooEarly p .precharge .tRAS :=
      decide_counter (k := .tRAS) hpos (by rw [since, hrow]; rfl) hult hras
    have hwrOk : s.tWROk p = !log.tooEarly p .precharge .tWR :=
      decide_counter (k := .tWR) hpos (by rw [since, hrow]; rfl) hlt hwr
    have hne : s.tWRCounter ≠ p.tWR.toNat := hwr ▸ waited_ne (hpos .tWR)
    have hread : r ≠ some v := by
      rintro rfl
      exact absurd (hr v rfl) (Nat.lt_irrefl v)
    cases hras' : log.tooEarly p .precharge .tRAS <;>
      cases hwr' : log.tooEarly p .precharge .tWR <;>
      simp [BankState.nextState, hfsm, BankCommand.cmd, hrow, hrasOk, hwrOk, hne, hread, hras',
        hwr']

theorem Follows.nextState_read {colAddr : BitVec 9} (hproper : log.proper (.read colAddr) = true) :
    s.nextState false p (BankCommand.read colAddr).cmd = answer p log (.read colAddr) := by
  cases h with
  | rowClosed _ hrow =>
    rw [BankLog.proper, hrow] at hproper
    cases hproper
  | rowOpened u hfsm hrow hlt hras hrcd =>
    have hok : s.tRCDOk p = !log.tooEarly p (.read colAddr) .tRCD :=
      decide_counter (k := .tRCD) hpos (by rw [since, hrow]; rfl) hlt hrcd
    cases hearly : log.tooEarly p (.read colAddr) .tRCD <;>
      simp [BankState.nextState, hfsm, BankCommand.cmd, hrow, hok, hearly]
  | colOpenedRead u v w hfsm hrow huv hlt hw hras hccd =>
    have hok : s.tCCDOk p = !log.tooEarly p (.read colAddr) .tCCD :=
      decide_counter (k := .tCCD) hpos (by rw [since, hrow]; rfl) hlt hccd
    have hne : w ≠ some (v, colAddr) := by
      rintro rfl
      exact absurd (hw _ rfl) (Nat.lt_irrefl v)
    cases hearly : log.tooEarly p (.read colAddr) .tCCD <;>
      simp [BankState.nextState, hfsm, BankCommand.cmd, hrow, hok, hne, hearly]
  | colOpenedWrite u v r hfsm hrow huv hlt hr hval hras hccd hwtr =>
    have hok : s.tCCDOk p = !log.tooEarly p (.read colAddr) .tCCD :=
      decide_counter (k := .tCCD) hpos (by rw [since, hrow]; rfl) hlt hccd
    have hne : s.tWTRCounter ≠ p.tWTR.toNat := hwtr ▸ waited_ne (hpos .tWTR)
    by_cases hcol : s.prevWriteColAddr = colAddr
    · have hwtrOk : s.tWTROk p = !log.tooEarly p (.read colAddr) .tWTR := by
        refine decide_counter (k := .tWTR) hpos ?_ hlt hwtr
        rw [since, hrow, ← hcol]
        simp
      cases hccd' : log.tooEarly p (.read colAddr) .tCCD <;>
        cases hwtr' : log.tooEarly p (.read colAddr) .tWTR <;>
        simp [BankState.nextState, hfsm, BankCommand.cmd, hrow, hok, hval, hcol, hne, hwtrOk,
          hccd', hwtr']
    · cases hearly : log.tooEarly p (.read colAddr) .tCCD <;>
        simp [BankState.nextState, hfsm, BankCommand.cmd, hrow, hok, hval, hcol, hearly]

theorem Follows.nextState_write {colAddr : BitVec 9}
    (hproper : log.proper (.write colAddr) = true) :
    s.nextState false p (BankCommand.write colAddr).cmd = answer p log (.write colAddr) := by
  cases h with
  | rowClosed _ hrow =>
    rw [BankLog.proper, hrow] at hproper
    cases hproper
  | rowOpened u hfsm hrow hlt hras hrcd =>
    have hok : s.tRCDOk p = !log.tooEarly p (.write colAddr) .tRCD :=
      decide_counter (k := .tRCD) hpos (by rw [since, hrow]; rfl) hlt hrcd
    cases hearly : log.tooEarly p (.write colAddr) .tRCD <;>
      simp [BankState.nextState, hfsm, BankCommand.cmd, hrow, hok, hearly]
  | colOpenedRead u v w hfsm hrow huv hlt hw hras hccd
  | colOpenedWrite u v w hfsm hrow huv hlt hw hval hras hccd =>
    have hok : s.tCCDOk p = !log.tooEarly p (.write colAddr) .tCCD :=
      decide_counter (k := .tCCD) hpos (by rw [since, hrow]; rfl) hlt hccd
    cases hearly : log.tooEarly p (.write colAddr) .tCCD <;>
      simp [BankState.nextState, hfsm, BankCommand.cmd, hrow, hok, hearly]

/-- **The bank answers as its log says.** -/
theorem Follows.nextState
    (hproper : log.proper c = true) : s.nextState false p c.cmd = answer p log c := by
  cases c with
  | activate => exact h.nextState_activate hpos hproper
  | read => exact h.nextState_read hpos hproper
  | write => exact h.nextState_write hpos hproper
  | precharge => exact h.nextState_precharge hpos

end

/-! ### The counters in the next cycle -/

theorem Follows.idle (h : Follows p s log) :
    Follows p (s.next false p .idle) (log.next none) := by
  have hstay : s.nextState false p .idle = s.fsm := BankState.nextState_idle rfl
  cases h with
  | rowClosed hfsm hrow hlt hrp hras hrcd hccd hwtr =>
    refine .rowClosed (hstay.trans hfsm) hrow (Nat.lt_succ_of_lt hlt) ?_ ?_ ?_ ?_ ?_ <;>
      simp [hfsm, hrp, hras, hrcd, hccd, hwtr, tick_waited hlt]
  | rowOpened u hfsm hrow hlt hras hrcd hrp hccd hwtr =>
    refine .rowOpened u (hstay.trans hfsm) hrow (Nat.lt_succ_of_lt hlt) ?_ ?_ ?_ ?_ ?_ <;>
      simp [hfsm, hrp, hras, hrcd, hccd, hwtr, tick_waited hlt]
  | colOpenedRead u v w hfsm hrow huv hlt hw hras hccd hrtp hrp hrcd hwtr =>
    have hult : u < log.cycle := by omega
    refine .colOpenedRead u v w (hstay.trans hfsm) hrow huv (Nat.lt_succ_of_lt hlt) hw ?_ ?_ ?_ ?_
      ?_ ?_ <;>
      simp [hfsm, hrp, hras, hrcd, hccd, hwtr, hrtp, tick_waited hlt, tick_waited hult]
  | colOpenedWrite u v r hfsm hrow huv hlt hr hval hras hccd hwtr hwr hrp hrcd =>
    have hult : u < log.cycle := by omega
    have hnote : s.noteWrite p .idle = false := rfl
    have hforget : s.forgetWrite p .idle = false := rfl
    refine .colOpenedWrite u v r (hstay.trans hfsm) ?_ huv (Nat.lt_succ_of_lt hlt) hr ?_ ?_ ?_ ?_ ?_
      ?_ ?_ <;>
      simp [hfsm, hrow, hval, hnote, hforget, hrp, hras, hrcd, hccd, hwtr, hwr, tick_waited hlt,
        tick_waited hult]

theorem write_remembered {colAddr : BitVec 9}
    (h : s.nextState false p (BankCommand.write colAddr).cmd = .colOpenedWrite) :
    (s.next false p (BankCommand.write colAddr).cmd).prevWriteColAddr = colAddr ∧
      (s.next false p (BankCommand.write colAddr).cmd).prevWriteColAddrVal = true := by
  have hnote : s.noteWrite p (BankCommand.write colAddr).cmd = true := by
    cases hfsm : s.fsm <;>
      simp [BankState.nextState, BankState.otherwise, BankState.noteWrite, BankCommand.cmd,
        hfsm] at h ⊢ <;>
      exact h
  exact ⟨if_pos hnote, if_pos hnote⟩

/-! ### A command that respects everything -/

theorem since_le (hc : log.Legal p c) {k : BankTiming} {u : ℕ} (hsince : log.since c k = some u) :
    u + (p.param k).toNat ≤ log.cycle := by
  have hearly := hc.2 k
  rw [tooEarly, hsince] at hearly
  exact Nat.le_of_not_lt (of_decide_eq_false hearly)

section

variable (h : Follows p s log) (hpos : Positive p)
include h hpos

theorem Follows.nextState_legal (hc : log.Legal p c) :
    s.nextState false p c.cmd =
      match log.row, c with
      | none, .activate _ => .rowOpened
      | none, _ => .rowClosed
      | some _, .precharge => .rowClosed
      | some _, .read _ => .colOpenedRead
      | some _, .write _ => .colOpenedWrite
      | some _, .activate _ => .invalidCmd := by
  have hearly : log.tooEarly p c = fun _ => false := funext hc.2
  rw [h.nextState hpos hc.1, answer.eq_def, hearly]
  cases log.row with
  | none => cases c <;> rfl
  | some row =>
    obtain ⟨u, col, r, w⟩ := row
    cases c <;> cases col <;> simp

theorem Follows.legal_activate {rowAddr : BitVec 14} (hc : log.Legal p (.activate rowAddr)) :
    Follows p (s.next false p (BankCommand.activate rowAddr).cmd)
      (log.next (some (.activate rowAddr))) := by
  have hnext := h.nextState_legal hpos hc
  cases h with
  | rowClosed hfsm hrow hlt hrp hras hrcd hccd hwtr =>
    rw [hrow] at hnext
    refine .rowOpened log.cycle hnext rfl (Nat.lt_succ_self _) ?_ ?_ ?_ ?_ ?_ <;>
      simp [hfsm, hras, hrcd, hccd, hwtr]
  | rowOpened _ _ hrow | colOpenedRead _ _ _ _ hrow | colOpenedWrite _ _ _ _ hrow =>
    have hproper := hc.1
    rw [BankLog.proper, hrow] at hproper
    cases hproper

theorem Follows.legal_precharge (hc : log.Legal p .precharge) :
    Follows p (s.next false p BankCommand.precharge.cmd) (log.next (some .precharge)) := by
  have hnext := h.nextState_legal hpos hc
  cases h with
  | rowClosed hfsm hrow hlt hrp hras hrcd hccd hwtr =>
    rw [hrow] at hnext
    refine .rowClosed hnext rfl (Nat.lt_succ_self _) ?_ ?_ ?_ ?_ ?_ <;>
      simp [hfsm, hras, hrcd, hccd, hwtr]
  | rowOpened u hfsm hrow hlt hras hrcd hrp hccd hwtr =>
    rw [hrow] at hnext
    refine .rowClosed hnext rfl (Nat.lt_succ_self _) ?_ ?_ ?_ ?_ ?_ <;>
      simp [hfsm, hnext, hrp, hccd, hwtr]
  | colOpenedRead u v w hfsm hrow huv hlt hw hras hccd hrtp hrp hrcd hwtr =>
    rw [hrow] at hnext
    refine .rowClosed hnext rfl (Nat.lt_succ_self _) ?_ ?_ ?_ ?_ ?_ <;>
      simp [hfsm, hnext, hrp, hrcd, hwtr]
  | colOpenedWrite u v r hfsm hrow huv hlt hr hval hras hccd hwtr hwr hrp hrcd =>
    rw [hrow] at hnext
    refine .rowClosed hnext rfl (Nat.lt_succ_self _) ?_ ?_ ?_ ?_ ?_ <;>
      simp [hfsm, hnext, hrp, hrcd]

theorem Follows.legal_read {colAddr : BitVec 9} (hc : log.Legal p (.read colAddr)) :
    Follows p (s.next false p (BankCommand.read colAddr).cmd)
      (log.next (some (.read colAddr))) := by
  have hnext := h.nextState_legal hpos hc
  cases h with
  | rowClosed _ hrow =>
    have hproper := hc.1
    rw [BankLog.proper, hrow] at hproper
    cases hproper
  | rowOpened u hfsm hrow hlt hras hrcd hrp hccd hwtr =>
    rw [hrow] at hnext
    have htime : u + p.tRCD.toNat ≤ log.cycle :=
      since_le hc (k := .tRCD) (by rw [since, hrow]; rfl)
    refine .colOpenedRead u log.cycle none hnext ?_ htime (Nat.lt_succ_self _) (by simp) ?_ ?_ ?_
      ?_ ?_
      ?_ <;>
      simp [hfsm, hnext, hrow, hrp, hras, hccd, hwtr, tick_waited hlt]
  | colOpenedRead u v w hfsm hrow huv hlt hw hras hccd hrtp hrp hrcd hwtr =>
    rw [hrow] at hnext
    have hult : u < log.cycle := by omega
    have htime : u + p.tRCD.toNat ≤ log.cycle := by omega
    refine .colOpenedRead u log.cycle w hnext ?_ htime (Nat.lt_succ_self _)
      (fun x hx => Nat.lt_trans (hw x hx) hlt) ?_ ?_ ?_ ?_ ?_ ?_ <;>
      simp [hfsm, hnext, hrow, hrp, hras, hrcd, hwtr, tick_waited hult]
  | colOpenedWrite u v r hfsm hrow huv hlt hr hval hras hccd hwtr hwr hrp hrcd =>
    rw [hrow] at hnext
    have hult : u < log.cycle := by omega
    have htime : u + p.tRCD.toNat ≤ log.cycle := by omega
    refine .colOpenedRead u log.cycle (some (v, s.prevWriteColAddr)) hnext ?_ htime
      (Nat.lt_succ_self _) ?_ ?_ ?_ ?_ ?_ ?_ ?_
    · rw [BankLog.next, hrow]
      rfl
    · rintro x ⟨⟩
      exact hlt
    all_goals
      simp [hfsm, hnext, hrp, hras, hrcd, tick_waited hult]

theorem Follows.legal_write {colAddr : BitVec 9} (hc : log.Legal p (.write colAddr)) :
    Follows p (s.next false p (BankCommand.write colAddr).cmd)
      (log.next (some (.write colAddr))) := by
  have hnext := h.nextState_legal hpos hc
  cases h with
  | rowClosed _ hrow =>
    have hproper := hc.1
    rw [BankLog.proper, hrow] at hproper
    cases hproper
  | rowOpened u hfsm hrow hlt hras hrcd hrp hccd hwtr =>
    rw [hrow] at hnext
    obtain ⟨hcol, hval⟩ := write_remembered hnext
    have htime : u + p.tRCD.toNat ≤ log.cycle :=
      since_le hc (k := .tRCD) (by rw [since, hrow]; rfl)
    refine .colOpenedWrite u log.cycle none hnext ?_ htime (Nat.lt_succ_self _) (by simp) hval ?_ ?_
      ?_ ?_ ?_ ?_
    · rw [hcol, BankLog.next, hrow]
      rfl
    all_goals
      simp [hfsm, hnext, hrp, hras, hccd, hwtr, tick_waited hlt]
  | colOpenedRead u v w hfsm hrow huv hlt hw hras hccd hrtp hrp hrcd hwtr =>
    rw [hrow] at hnext
    have hult : u < log.cycle := by omega
    have htime : u + p.tRCD.toNat ≤ log.cycle := by omega
    obtain ⟨hcol, hval⟩ := write_remembered hnext
    refine .colOpenedWrite u log.cycle (some v) hnext ?_ htime (Nat.lt_succ_self _) ?_ hval ?_ ?_
      ?_ ?_ ?_ ?_
    · rw [hcol, BankLog.next, hrow]
      rfl
    · rintro x ⟨⟩
      exact hlt
    all_goals
      simp [hfsm, hnext, hrp, hras, hrcd, hwtr, tick_waited hult]
  | colOpenedWrite u v r hfsm hrow huv hlt hr hval hras hccd hwtr hwr hrp hrcd =>
    rw [hrow] at hnext
    have hult : u < log.cycle := by omega
    have htime : u + p.tRCD.toNat ≤ log.cycle := by omega
    obtain ⟨hcol, hval'⟩ := write_remembered hnext
    refine .colOpenedWrite u log.cycle r hnext ?_ htime (Nat.lt_succ_self _)
      (fun x hx => Nat.lt_trans (hr x hx) hlt) hval' ?_ ?_ ?_ ?_ ?_ ?_
    · rw [hcol, BankLog.next, hrow]
      rfl
    all_goals
      simp [hfsm, hnext, hrp, hras, hrcd, tick_waited hult]

/-- **The counters of the bank stay those of the log.** -/
theorem Follows.legal (hc : log.Legal p c) :
    Follows p (s.next false p c.cmd) (log.next (some c)) := by
  cases c with
  | activate => exact h.legal_activate hpos hc
  | read => exact h.legal_read hpos hc
  | write => exact h.legal_write hpos hc
  | precharge => exact h.legal_precharge hpos hc

end

theorem Follows.errors (h : Follows p s log) : s.errors = .none := by
  rw [BankState.errors]
  cases h with
  | rowClosed hfsm | rowOpened _ hfsm | colOpenedRead _ _ _ hfsm | colOpenedWrite _ _ _ hfsm =>
    rw [hfsm]
    rfl

theorem follows_of_reachable (hpos : Positive p) :
    ∀ x, ((machine p).restrict (LegalIn p)).Reachable x → Follows p x.1 x.2 := by
  refine Machine.invariant ?_ ?_
  · rintro ⟨s, log⟩ ⟨rfl, rfl⟩
    refine .rowClosed rfl rfl Nat.zero_lt_one ?_ rfl rfl rfl rfl
    exact (waited_start 0 p.tRP).symm
  · rintro ⟨s, log⟩ ⟨fire, c⟩ ⟨s', log'⟩ - h ⟨hlegal, rfl, rfl⟩
    cases fire with
    | false => exact h
    | true =>
      cases c with
      | none => exact h.idle
      | some c => exact h.legal hpos (hlegal rfl c rfl)

theorem cycle_error (h : s.fsm.isError = true) (i : BankIn) : (cycle p s i).fsm = s.fsm := by
  rw [cycle, DRAMBank.next]
  split
  · show s.nextState false p _ = s.fsm
    rw [BankState.nextState]
    split
    · rw [BankState.nextFsm]
      cases hfsm : s.fsm <;> rw [hfsm] at h <;> first | rfl | cases h
    · rfl
  · rfl

theorem foldl_error (later : List BankIn) (h : s.fsm.isError = true) :
    (later.foldl (cycle p) s).fsm = s.fsm := by
  induction later generalizing s with
  | nil => rfl
  | cons i later ih =>
    have hfsm := cycle_error (p := p) h i
    rw [List.foldl_cons, ih (by rwa [hfsm]), hfsm]

theorem isError_of_only {f : BankFsm} {k : BankTiming} (h : f.errors = .only k) :
    f.isError = true := by
  cases f <;> first | rfl | (cases k <;> cases h)

/-- What is reported of a command is the state it leads to. -/
theorem reports_iff_answer (h : Follows p s log) (hpos : Positive p)
    (hproper : log.proper c = true) {k : BankTiming} :
    Reports p s c k ↔ (answer p log c).errors = .only k := by
  have hnext : (cycle p s ⟨true, some c⟩).fsm = answer p log c := h.nextState hpos hproper
  rw [← hnext]
  constructor
  · exact fun hreports => hreports []
  · intro hnow later
    rw [BankState.errors, foldl_error later (isError_of_only hnow)]
    exact hnow

/-- A column that was used shows that the row was opened long enough ago. -/
theorem not_tRCD {u v x : ℕ} {k : BankTiming} (huv : u + p.tRCD.toNat ≤ v) (hlt : v < log.cycle)
    (hlate : log.cycle < x + (p.param k).toNat) (hx : u = x) : k ≠ .tRCD := by
  rintro rfl
  rw [BankParams.param, ← hx] at hlate
  omega

theorem answer_only_iff (h : Follows p s log) {k : BankTiming} (hc : log.OnlyEarly p c k) :
    (answer p log c).errors = .only k ↔ log.Told c k := by
  have hearly : log.tooEarly p c = fun j => decide (j = k) := funext hc.2
  have hproper := hc.1
  obtain ⟨x, hx, hlate⟩ : ∃ x, log.since c k = some x ∧ log.cycle < x + (p.param k).toNat := by
    have hself := hc.2 k
    rw [decide_eq_true rfl, tooEarly, Option.any_eq_true] at hself
    obtain ⟨x, hx, hlate⟩ := hself
    exact ⟨x, hx, of_decide_eq_true hlate⟩
  rw [answer.eq_def, hearly]
  cases h with
  | rowClosed hfsm hrow =>
    rw [BankLog.proper.eq_def, hrow] at hproper
    cases c with
    | activate rowAddr =>
      cases k <;> simp [since] at hx
      simp [hrow]
    | precharge => cases k <;> simp [since, hrow] at hx
    | read | write => cases hproper
  | rowOpened u hfsm hrow =>
    rw [BankLog.proper.eq_def, hrow] at hproper
    cases c with
    | activate => cases hproper
    | precharge | read | write =>
      cases k <;> simp [since, hrow] at hx
      simp [hrow]
  | colOpenedRead u v w hfsm hrow huv hlt hw =>
    rw [BankLog.proper.eq_def, hrow] at hproper
    -- the last write was before the read
    have hne (colAddr : BitVec 9) : w ≠ some (v, colAddr) := by
      rintro rfl
      exact absurd (hw _ rfl) (Nat.lt_irrefl v)
    cases c with
    | activate => cases hproper
    | precharge =>
      cases k <;> simp [since, hrow] at hx <;>
        simp [hrow]
    | read colAddr =>
      cases k <;> simp [since, hrow] at hx <;>
        simp [hrow, hne]
      case tRCD => exact not_tRCD huv hlt hlate hx rfl
      case tCCD =>
        rintro t column hwrite rfl
        exact (hne column hwrite).elim
    | write colAddr =>
      cases k <;> simp [since, hrow] at hx <;>
        simp [hrow]
      case tRCD => exact not_tRCD huv hlt hlate hx rfl
  | colOpenedWrite u v r hfsm hrow huv hlt hr =>
    rw [BankLog.proper.eq_def, hrow] at hproper
    cases c with
    | activate => cases hproper
    | precharge =>
      -- the last read was before the write
      have hne : r ≠ some v := by
        rintro rfl
        exact absurd (hr v rfl) (Nat.lt_irrefl v)
      cases k <;> simp [since, hrow] at hx <;>
        simp [hrow, hne]
    | read colAddr =>
      by_cases hcol : s.prevWriteColAddr = colAddr <;>
        cases k <;> simp [since, hrow, hcol] at hx <;>
        simp [hrow, hcol]
      case neg.tCCD => exact fun heq => hcol heq.symm
      all_goals exact not_tRCD huv hlt hlate hx rfl
    | write colAddr =>
      cases k <;> simp [since, hrow] at hx <;>
        simp [hrow]
      case tRCD => exact not_tRCD huv hlt hlate hx rfl

/-- **What a bank reports.** As long as all commands are legal it reports nothing, and the first one
that comes too early, for one parameter, is reported under its name in the cases `Told` names. -/
theorem reports_iff (p : BankParams) (hpos : Positive p) (x : BankState × BankLog)
    (hx : ((machine p).restrict (LegalIn p)).Reachable x) :
    x.1.errors = .none ∧
      ∀ c k, x.2.OnlyEarly p c k → (Reports p x.1 c k ↔ x.2.Told c k) := by
  have hfollows := follows_of_reachable hpos x hx
  exact ⟨hfollows.errors, fun c k hc =>
    (reports_iff_answer hfollows hpos hc.1).trans (answer_only_iff hfollows hc)⟩

/-- A precharge takes two cycles, and a row may be closed three cycles after a read. -/
def slowRead : BankParams := ⟨1, 1, 2, 1, 3, 1, 1⟩

/-- A row is opened as soon as that is legal, and read. -/
def opened : BankState × BankLog :=
  Machine.cycles (cycle slowRead) (fun _ i log => if i.fireTgtCycle then log.next i.cmd else log)
    [⟨true, none⟩, ⟨true, some (.activate 5)⟩, ⟨true, some (.read 3)⟩] (.init, .init)

/-- After reset a row is opened too early for its precharge; after a read it is closed too early. -/
theorem reports_iff_opened : BankState.errors .init = .none ∧
    Reports slowRead .init (.activate 0) .tRP ∧
    opened.1.errors = .none ∧ Reports slowRead opened.1 .precharge .tRTP := by
  have hpos : Positive slowRead := by
    rintro (_ | _ | _ | _ | _ | _ | _) <;> decide
  have hstart : ((machine slowRead).restrict (LegalIn slowRead)).Reachable (.init, .init) :=
    .init ⟨rfl, rfl⟩
  have hopened : ((machine slowRead).restrict (LegalIn slowRead)).Reachable opened := by
    refine Machine.reachable_restrict_cycles hstart _ ⟨?_, ?_, ?_, trivial⟩
    · rintro - c ⟨⟩
    · rintro - c ⟨⟩
      exact ⟨rfl, by rintro (_ | _ | _ | _ | _ | _ | _) <;> rfl⟩
    · rintro - c ⟨⟩
      exact ⟨rfl, by rintro (_ | _ | _ | _ | _ | _ | _) <;> rfl⟩
  have hreset := reports_iff slowRead hpos (.init, .init) hstart
  have hread := reports_iff slowRead hpos opened hopened
  refine ⟨hreset.1, (hreset.2 (.activate 0) .tRP ⟨rfl, ?_⟩).mpr trivial, hread.1,
    (hread.2 .precharge .tRTP ⟨rfl, ?_⟩).mpr ?_⟩
  · rintro (_ | _ | _ | _ | _ | _ | _) <;> rfl
  · rintro (_ | _ | _ | _ | _ | _ | _) <;> rfl
  · rintro r ⟨⟩
    rfl

/-- A row is opened, written, and closed before the write is over. Nothing is reported. -/
theorem not_reports : ¬∀ p, Positive p → ∀ x,
    ((machine p).restrict (LegalIn p)).Reachable x →
      x.1.errors = .none ∧ ∀ c k, x.2.OnlyEarly p c k → Reports p x.1 c k := by
  intro h
  have hpos : Positive ⟨1, 1, 1, 1, 1, 1, 2⟩ := by
    rintro (_ | _ | _ | _ | _ | _ | _) <;> decide
  have hlegal : Machine.CyclesOk (LegalIn ⟨1, 1, 1, 1, 1, 1, 2⟩) (cycle ⟨1, 1, 1, 1, 1, 1, 2⟩)
      (fun _ i log => if i.fireTgtCycle then log.next i.cmd else log)
      [⟨true, some (.activate 5)⟩, ⟨true, some (.write 3)⟩] (.init, .init) := by
    refine ⟨?_, ?_, trivial⟩
    · rintro - c ⟨⟩
      exact ⟨rfl, by rintro (_ | _ | _ | _ | _ | _ | _) <;> rfl⟩
    · rintro - c ⟨⟩
      exact ⟨rfl, by rintro (_ | _ | _ | _ | _ | _ | _) <;> rfl⟩
  have hstart : ((machine ⟨1, 1, 1, 1, 1, 1, 2⟩).restrict
      (LegalIn ⟨1, 1, 1, 1, 1, 1, 2⟩)).Reachable (.init, .init) := .init ⟨rfl, rfl⟩
  have hreach := Machine.reachable_restrict_cycles hstart _ hlegal
  have hreports := (h _ hpos _ hreach).2 .precharge .tWR
    ⟨rfl, by rintro (_ | _ | _ | _ | _ | _ | _) <;> rfl⟩ []
  exact absurd hreports (by decide)

end DRAMBank

end Dram

end RiscvSoc
