import RiscvSoc.Lib.SharedQueue
import RiscvSoc.Uncore.LLCStep

/-!
# Write data in the last-level cache

The CPU side of `DRAMSideLLC` sends write commands and beats of data on two separate ports, and
two units take beats from the one data port: `LLCData` for a write hit, `LLCWriteback` for a write
miss. Nothing on a beat says which write it belongs to, so a beat arrives where it belongs only if
the unit that takes it is the one with the earliest write still short of data.

A history variable numbers the write commands as the CPU port accepts them and as they reach a
unit, and counts the beats the data port has taken. Beat `b` belongs to write `b / refillCycles`.

## When the units get in each other's way

A write miss in `LLCWriteback` does not stop a later write hit from entering `LLCData`, nor the
other way round, and then both units look at the same beat. A unit that is stalled (memory takes
no data, or a refill beat occupies the array) lets the beat pass. Besides, `LLCWriteback` goes on
accepting beats after the last one of its write until its command has been sent, and throws them
away. `BeatOk` excludes just these.
-/

namespace RiscvSoc

open LLCWriteback

variable {c : LLCConf} {D : Type}

/-! ### The two units -/

namespace LLCWriteback

variable {w : LLCWriteback} {n : ℕ} {req : Fin 2 → Option ℕ} {dataFire cmdFire : Bool}

/-- The CPU write that still wants data, which is write `n`, and the beats it has had. -/
def job (w : LLCWriteback) (n : ℕ) : Option (ℕ × ℕ) :=
  if w.valid && decide (w.who = 1) && !w.dataSent then some (n, w.count) else none

theorem job_eq_none :
    w.job n = none ↔ (w.valid = true → w.who = 1 → w.dataSent = true) := by
  simp [job]

theorem of_job_eq_some {p : ℕ × ℕ} (h : w.job n = some p) :
    w.valid = true ∧ w.who = 1 ∧ w.dataSent = false := by
  rw [job] at h
  split at h
  · simp_all
  · cases h

/-- The beat counter starts from zero. -/
structure Counts (c : LLCConf) (w : LLCWriteback) : Prop where
  lt : w.count < c.refillCycles
  idle : w.valid = false ∨ w.dataSent = true → w.count = 0

theorem Counts.next_of_idle (h : w.Counts c) (hw : w.valid = false) :
    (w.next c req false false).Counts c := by
  rw [LLCWriteback.next_of_idle hw]
  have hcount := h.idle (.inl hw)
  split
  · exact ⟨h.lt, fun _ => hcount⟩
  · exact h

theorem Counts.next_of_valid (h : w.Counts c) (hw : w.valid = true)
    (hfire : dataFire = true → w.dataSent = false) :
    (w.next c req dataFire cmdFire).Counts c := by
  have hR := c.one_lt_refillCycles
  have hlt := h.lt
  rw [LLCWriteback.next_of_valid hw]
  cases dataFire with
  | false =>
    refine ⟨hlt, fun hidle => h.idle (.inr ?_)⟩
    revert hidle
    cases w.dataSent <;> simp
  | true =>
    have hsent := hfire rfl
    by_cases hlast : w.count = c.refillCycles - 1
    · have hwrap : (w.count + 1) % c.refillCycles = 0 := by
        rw [hlast, Nat.sub_add_cancel hR.le, Nat.mod_self]
      exact ⟨by simpa [hwrap] using Nat.zero_lt_of_lt hR, fun _ => by simpa using hwrap⟩
    · refine ⟨by simpa using Nat.mod_lt _ (by omega), fun hidle => ?_⟩
      simp [hsent, hlast] at hidle

/-- The CPU write of `LLCWriteback` from one cycle to the next. -/
theorem job_next_of_valid (h : w.Counts c) (hw : w.valid = true)
    (hfire : dataFire = true → w.dataSent = false) :
    (w.next c req dataFire cmdFire).job n =
      if dataFire then (w.job n).bind (Ledger.served c.refillCycles) else w.job n := by
  have hlt := h.lt
  rw [LLCWriteback.next_of_valid hw]
  obtain ⟨valid, who, addr, cmdSent, dataSent, count⟩ := w
  cases hw
  cases dataFire with
  | false => cases dataSent <;> simp [job]
  | true =>
    cases hfire rfl
    by_cases hlast : count = c.refillCycles - 1
    · have hR := Nat.sub_add_cancel c.one_lt_refillCycles.le
      by_cases hwho : who = 1 <;> simp [job, hlast, hwho, Ledger.served, hR]
    · have hmore : count + 1 < c.refillCycles := by
        have : count < c.refillCycles := hlt
        omega
      by_cases hwho : who = 1 <;>
        simp [job, hlast, hwho, Ledger.served, hmore.ne, Nat.mod_eq_of_lt hmore]

end LLCWriteback

namespace LLCData

variable {u v : LLCData c D} {n : ℕ} {step : Bool} {req : Option (LLCDataReq c)} {wbReady : Bool}
  {reqData : Option D} {memResp : Option ((Fin c.ways × ℕ) × D)} {respReady wbDataReady : Bool}

/-- The CPU write in the request register, which is write `n`, and the beats it has had. -/
def job (u : LLCData c D) (n : ℕ) : Option (ℕ × ℕ) :=
  if u.valid && u.req.rw then some (n, u.count) else none

/-- The CPU write being served this cycle, from the register or straight from the port. -/
def jobIn (u : LLCData c D) (req : Option (LLCDataReq c)) (wbReady : Bool) (n : ℕ) :
    Option (ℕ × ℕ) :=
  (u.current req wbReady).bind fun r => if r.rw then some (n, u.count) else none

/-- The beat counter starts from zero. -/
structure Counts (u : LLCData c D) : Prop where
  lt : u.count < c.refillCycles
  idle : u.valid = false → u.count = 0

theorem reqDataReady_eq (hreq : ∀ r, req = some r → r.rw = true → r.isWriteback = false)
    (memRespValid : Bool) :
    u.reqDataReady req memRespValid = (!memRespValid && (u.jobIn req wbReady n).isSome) := by
  cases hv : u.valid with
  | true => cases hrw : u.req.rw <;> simp [reqDataReady, jobIn, current, hv, hrw]
  | false =>
    rcases req with _ | r
    · simp [reqDataReady, jobIn, current, hv]
    · cases hrw : r.rw with
      | false =>
        cases hready : u.reqReady r.isWriteback wbReady <;>
          simp [reqDataReady, jobIn, current, hv, hrw, Option.filter, hready]
      | true =>
        have hwb := hreq r rfl hrw
        simp [reqDataReady, jobIn, current, hv, hrw, Option.filter, reqReady, hwb]

theorem Counts.next (h : u.Counts)
    (hv : v = u.next req wbReady reqData memResp respReady wbDataReady) : v.Counts := by
  have hR := c.one_lt_refillCycles
  obtain ⟨hvalid, _, hcount⟩ := next_eq hv rfl
  rcases hcur : u.current req wbReady with _ | r
  · -- nothing is served, so nothing is counted
    have hstep : u.counting req wbReady reqData memResp = false := by
      rw [counting_eq, hcur, Option.any_none, Bool.and_false]
    have hidle : u.valid = false := by
      cases hu : u.valid with
      | false => rfl
      | true => simp [current, hu] at hcur
    rw [hstep, if_neg (by decide), h.idle hidle] at hcount
    exact ⟨hcount ▸ by omega, fun _ => hcount⟩
  · rw [hcur] at hvalid
    cases hstep : u.counting req wbReady reqData memResp with
    | false =>
      rw [hstep, if_neg (by decide)] at hcount
      refine ⟨hcount ▸ h.lt, fun hidle => ?_⟩
      simp [hvalid, hstep] at hidle
    | true =>
      rw [hstep, if_pos rfl] at hcount
      refine ⟨hcount ▸ Nat.mod_lt _ (by omega), fun hidle => ?_⟩
      have hlast : u.count = c.refillCycles - 1 := by
        have hdone : u.valid = true ∧ u.count = c.refillCycles - 1 := by
          simpa [hvalid, hstep] using hidle
        exact hdone.2
      rw [hcount, hlast, Nat.sub_add_cancel hR.le, Nat.mod_self]

/-- The CPU write of `LLCData` from one cycle to the next. -/
theorem job_next (h : u.Counts)
    (hv : v = u.next req wbReady reqData memResp respReady wbDataReady) :
    v.job n = if reqData.isSome && memResp.isNone then
      (u.jobIn req wbReady n).bind (Ledger.served c.refillCycles) else u.jobIn req wbReady n := by
  have hR := c.one_lt_refillCycles
  have hlt := h.lt
  obtain ⟨hvalid, hreq, hcount⟩ := next_eq hv rfl
  rw [counting_eq] at hvalid hcount
  rcases hcur : u.current req wbReady with _ | r
  · simp [job, jobIn, hvalid, hcur]
  · cases hrw : r.rw with
    | false => simp [job, jobIn, hreq, hcur, hrw]
    | true =>
      cases htake : reqData.isSome && memResp.isNone with
      | false =>
        have hstep : (memResp.isNone && reqData.isSome) = false := by rwa [Bool.and_comm]
        simp [job, jobIn, hvalid, hcount, hreq, hcur, hrw, hstep]
      | true =>
        have hstep : (memResp.isNone && reqData.isSome) = true := by rwa [Bool.and_comm]
        by_cases hlast : u.count = c.refillCycles - 1
        · have hbusy : u.valid = true := by
            by_contra hidle
            have := h.idle (by simpa using hidle)
            omega
          simp [job, jobIn, hvalid, hreq, hcur, hrw, hstep, hbusy, hlast, Ledger.served,
            Nat.sub_add_cancel hR.le]
        · have hmore : u.count + 1 < c.refillCycles := by omega
          simp [job, jobIn, hvalid, hcount, hreq, hcur, hrw, hstep, hlast, Ledger.served,
            hmore.ne, Nat.mod_eq_of_lt hmore]

end LLCData

/-! ### The write history -/

/-- What the two CPU ports have seen of writes. -/
structure WriteHistory where
  /-- The write commands taken at `io.cpu.req_cmd`, the first one first. -/
  accepted : List MemReqCmd
  /-- How many of them have reached a unit. -/
  issued : ℕ
  /-- The write `LLCWriteback` took last. -/
  wbOwner : ℕ
  /-- The write `LLCData` took last. -/
  dataOwner : ℕ
  /-- How many beats were taken at `io.cpu.req_data`. -/
  beats : ℕ

namespace DRAMSideLLC

variable {s : DRAMSideLLC c D} {g : WriteHistory} {i : LLCInput c D}

/-- `io.cpu.req_data.fire()`. -/
def beat (s : DRAMSideLLC c D) (i : LLCInput c D) : Option D :=
  if s.reqDataReady i then i.reqData else none

/-- `LLCData` stores the beat at the CPU port. -/
def dataTakes (s : DRAMSideLLC c D) (i : LLCInput c D) : Bool :=
  i.reqData.isSome && s.data.reqDataReady s.dataReq i.memResp.isSome

/-- `LLCWriteback` sends the beat at the CPU port to memory. -/
def wbTakes (s : DRAMSideLLC c D) (i : LLCInput c D) : Bool :=
  decide (s.writeback.who = 1) && s.wbDataFire i

/-- The history after a cycle. -/
def nextHistory (s : DRAMSideLLC c D) (i : LLCInput c D) (g : WriteHistory) : WriteHistory where
  accepted := g.accepted ++ ((s.reqCmdFire i).filter (·.rw)).toList
  issued := g.issued + if s.hitWrite || s.missWrite then 1 else 0
  wbOwner := if s.missWrite then g.issued else g.wbOwner
  dataOwner := if s.hitWrite then g.issued else g.dataOwner
  beats := g.beats + if (s.beat i).isSome then 1 else 0

/-- The cache and its history. -/
def writeMachine (c : LLCConf) (D : Type) : Machine (DRAMSideLLC c D × WriteHistory)
    (LLCInput c D) :=
  (machine c D).observe ⟨[], 0, 0, 0, 0⟩ nextHistory

/-- The two units as servers on the CPU's data port: `false` is `LLCData`, `true` is
`LLCWriteback`. -/
def ledger (s : DRAMSideLLC c D) (g : WriteHistory) : Ledger where
  issued := g.issued
  taken := g.beats
  serving
    | false => s.data.job g.dataOwner
    | true => s.writeback.job g.wbOwner

/-- The ledger once a write hit has reached `LLCData`, which may take a beat for it in the same
cycle. `LLCWriteback` takes the first beat of a write miss a cycle later. -/
def ledgerIn (s : DRAMSideLLC c D) (g : WriteHistory) : Ledger :=
  if s.hitWrite then (s.ledger g).issue false else s.ledger g

/-- **The beat of this cycle arrives where it belongs.** Beat `b` is taken by exactly one unit,
as beat `b % refillCycles` of write `b / refillCycles`, and ends up at that write's address: in
the array, or on its way to memory behind `LLCWriteback`'s command. -/
def Delivered (s : DRAMSideLLC c D × WriteHistory) (i : LLCInput c D) : Prop :=
  match s.1.beat i with
  | none => s.1.dataTakes i = false ∧ s.1.wbTakes i = false
  | some d =>
    let n := s.2.beats / c.refillCycles
    let k := s.2.beats % c.refillCycles
    ∃ cmd, s.2.accepted[n]? = some cmd ∧
      ((s.1.dataTakes i = true ∧ s.1.wbTakes i = false ∧
          (s.1.ledgerIn s.2).serving false = some (n, k) ∧
          ∃ way, s.1.arrayIn i = some (.write ⟨way, cmd.addr % c.sets, k⟩ d)) ∨
        (s.1.wbTakes i = true ∧ s.1.dataTakes i = false ∧
          (s.1.ledgerIn s.2).serving true = some (n, k) ∧
          s.1.writeback.memData (s.1.wbData i) = some d ∧ s.1.writeback.addr = cmd.addr))

/-- What the CPU must not do. While both units hold a CPU write that wants data, a beat may be
offered only if the one with the later write is stalled; and once `LLCWriteback` has sent the data
of a CPU write, no beat may be offered that memory has room for and `LLCData` does not take. -/
def BeatOk (s : DRAMSideLLC c D × WriteHistory) (i : LLCInput c D) : Prop :=
  i.reqData.isSome = true →
    (∀ n k m j, (s.1.ledgerIn s.2).serving false = some (n, k) →
      (s.1.ledgerIn s.2).serving true = some (m, j) →
      if n < m then i.memDataReady = false else i.memResp.isSome = true) ∧
    (s.1.writeback.valid = true → s.1.writeback.who = 1 → s.1.writeback.dataSent = true →
      i.memDataReady = true →
      ((s.1.ledgerIn s.2).serving false).isSome = true ∧ i.memResp = none)

/-! ### The command in the pipeline -/

/-- The command between the CPU port and the units. -/
def inFlight (s : DRAMSideLLC c D) : Option MemReqCmd :=
  if s.s1Valid then some s.s1 else if s.s2Valid || s.replayS2 then some s.s2 else none

/-- At most one command is on its way. -/
inductive OneCommand (s : DRAMSideLLC c D) : Prop
  | idle : s.s1Valid = false → s.s2Valid = false → s.replayS2 = false → OneCommand s
  | s1 : s.s1Valid = true → s.s2Valid = false → s.replayS2 = false → OneCommand s
  | s2 : s.s1Valid = false → s.s2Valid = true → s.replayS2 = false → OneCommand s
  | replay : s.s1Valid = false → s.s2Valid = false → s.replayS2 = true → OneCommand s

/-- The command in flight after a cycle, and that there is no other. -/
theorem OneCommand.next (h : s.OneCommand) : (s.next i).OneCommand ∧
    (s.next i).inFlight =
      if s.s2Valid && s.s3Rdy then none else s.inFlight <|> s.reqCmdFire i := by
  rcases h with ⟨h₁, h₂, h₃⟩ | ⟨h₁, h₂, h₃⟩ | ⟨h₁, h₂, h₃⟩ | ⟨h₁, h₂, h₃⟩
  · rcases hc : s.reqCmdFire i with _ | cmd
    · refine ⟨.idle ?_ ?_ ?_, ?_⟩ <;>
        simp [DRAMSideLLC.next, inFlight, replayFire, h₁, h₂, h₃, hc]
    · refine ⟨.s1 ?_ ?_ ?_, ?_⟩ <;>
        simp [DRAMSideLLC.next, inFlight, replayFire, h₁, h₂, h₃, hc]
  · have hc : s.reqCmdFire i = none := by simp [reqCmdFire, reqCmdReady, h₁]
    refine ⟨.s2 ?_ ?_ ?_, ?_⟩ <;>
      simp [DRAMSideLLC.next, inFlight, replayFire, h₁, h₂, h₃, hc]
  · have hc : s.reqCmdFire i = none := by simp [reqCmdFire, reqCmdReady, h₂]
    cases hrdy : s.s3Rdy with
    | true =>
      refine ⟨.idle ?_ ?_ ?_, ?_⟩ <;>
        simp [DRAMSideLLC.next, inFlight, replayFire, h₁, h₂, h₃, hc, hrdy]
    | false =>
      refine ⟨.replay ?_ ?_ ?_, ?_⟩ <;>
        simp [DRAMSideLLC.next, inFlight, replayFire, h₁, h₂, h₃, hc, hrdy]
  · have hc : s.reqCmdFire i = none := by simp [reqCmdFire, reqCmdReady, h₃]
    cases hrdy : s.replayS2Rdy with
    | true =>
      refine ⟨.s1 ?_ ?_ ?_, ?_⟩ <;>
        simp [DRAMSideLLC.next, inFlight, replayFire, h₁, h₂, h₃, hc, hrdy]
    | false =>
      refine ⟨.replay ?_ ?_ ?_, ?_⟩ <;>
        simp [DRAMSideLLC.next, inFlight, replayFire, h₁, h₂, h₃, hc, hrdy]

/-! ### The units as servers -/

theorem ledgerIn_serving_true : (s.ledgerIn g).serving true = s.writeback.job g.wbOwner := by
  rw [ledgerIn]
  split
  · exact Ledger.serving_issue_not
  · rfl

theorem ledgerIn_serving_false (hcount : s.data.Counts) : (s.ledgerIn g).serving false =
    s.data.jobIn s.dataReq s.victimReady (if s.hitWrite then g.issued else g.dataOwner) := by
  rw [ledgerIn]
  cases hw : s.hitWrite with
  | true =>
    obtain ⟨_, hrw, hidle, _, hcur⟩ := of_hitWrite hw
    refine Ledger.serving_issue_self.trans ?_
    simp [LLCData.jobIn, hcur, hrw, hcount.idle hidle, ledger]
  | false =>
    change s.data.job g.dataOwner = _
    cases hv : s.data.valid with
    | true => simp [LLCData.job, LLCData.jobIn, LLCData.current, hv]
    | false =>
      have hnone : ∀ r, s.data.current s.dataReq s.victimReady = some r → r.rw = false := by
        intro r hr
        by_contra hrw
        rw [hitWrite_of_current hv hr (by simpa using hrw)] at hw
        cases hw
      rcases hcur : s.data.current s.dataReq s.victimReady with _ | r
      · simp [LLCData.job, LLCData.jobIn, hv, hcur]
      · simp [LLCData.job, LLCData.jobIn, hv, hcur, hnone r hcur]

theorem ledgerIn_taken : (s.ledgerIn g).taken = g.beats := by
  rw [ledgerIn]
  split <;> rfl

theorem ledgerIn_inOrder (h : (s.ledger g).InOrder c.refillCycles) :
    (s.ledgerIn g).InOrder c.refillCycles := by
  rw [ledgerIn]
  split
  · rename_i hw
    obtain ⟨_, _, hidle, _, _⟩ := of_hitWrite hw
    exact h.issue (Nat.two_pow_pos _) (by simp [ledger, LLCData.job, hidle])
  · exact h

theorem dataTakes_eq (g : WriteHistory) (hcount : s.data.Counts) : s.dataTakes i =
    (i.reqData.isSome && i.memResp.isNone && ((s.ledgerIn g).serving false).isSome) := by
  rw [dataTakes, ledgerIn_serving_false hcount,
    LLCData.reqDataReady_eq (fun r => isWriteback_of_rw), Option.not_isSome, Bool.and_assoc]

theorem wbTakes_eq (g : WriteHistory) : s.wbTakes i =
    (i.reqData.isSome && i.memDataReady && ((s.ledgerIn g).serving true).isSome) := by
  rw [ledgerIn_serving_true, wbTakes, wbDataFire, memData, LLCWriteback.job]
  by_cases hwho : s.writeback.who = 1
  · have hdata : s.wbData i s.writeback.who = i.reqData := by rw [hwho]; rfl
    rw [hdata]
    cases s.writeback.valid <;> cases s.writeback.dataSent <;> simp [hwho]
  · simp [hwho]

theorem reqDataReady_eq (g : WriteHistory) (hcount : s.data.Counts) : s.reqDataReady i =
    (s.writeback.valid && decide (s.writeback.who = 1) && i.memDataReady ||
      i.memResp.isNone && ((s.ledgerIn g).serving false).isSome) := by
  rw [reqDataReady, ledgerIn_serving_false hcount,
    LLCData.reqDataReady_eq (fun r => isWriteback_of_rw), Option.not_isSome, LLCWriteback.dataReady]

/-! ### What holds in every run -/

/-- The invariant of the cache next to its write history. -/
structure WriteInv (s : DRAMSideLLC c D) (g : WriteHistory) : Prop where
  oneCommand : s.OneCommand
  /-- The write in flight is the one accepted last, and the only one not issued. -/
  accepted : ∃ done : List MemReqCmd, done.length = g.issued ∧
    g.accepted = done ++ (s.inFlight.filter (·.rw)).toList
  wbCounts : s.writeback.Counts c
  dataCounts : s.data.Counts
  wbWrite : s.writeback.valid = true → s.writeback.who = 1 →
    ∃ cmd, g.accepted[g.wbOwner]? = some cmd ∧ cmd.addr = s.writeback.addr
  dataWrite : s.data.valid = true → s.data.req.rw = true →
    g.accepted[g.dataOwner]? = some s.data.req.toMemReqCmd
  inOrder : (s.ledger g).InOrder c.refillCycles

/-- The write that reaches a unit is the first that has not been issued. -/
theorem WriteInv.accepted_issued (h : WriteInv s g) (hvalid : s.s2Valid = true)
    (hrw : s.s2.rw = true) : g.accepted[g.issued]? = some s.s2 := by
  obtain ⟨done, hlen, hacc⟩ := h.accepted
  have hs1 : s.s1Valid = false := by
    rcases h.oneCommand with ⟨h₁, _, _⟩ | ⟨_, h₂, _⟩ | ⟨h₁, _, _⟩ | ⟨h₁, _, _⟩
    · exact h₁
    · rw [hvalid] at h₂
      cases h₂
    · exact h₁
    · exact h₁
  rw [hacc, ← hlen]
  simp [inFlight, hs1, hvalid, hrw, Option.filter]

/-- The write `LLCData` serves this cycle. -/
theorem WriteInv.current (h : WriteInv s g) {r : LLCDataReq c}
    (hcur : s.data.current s.dataReq s.victimReady = some r) (hrw : r.rw = true) :
    g.accepted[if s.hitWrite then g.issued else g.dataOwner]? = some r.toMemReqCmd := by
  cases hv : s.data.valid with
  | true =>
    have hw : s.hitWrite = false := by
      by_contra hw
      have := (of_hitWrite (by simpa using hw)).2.2.1
      rw [hv] at this
      cases this
    rw [LLCData.current, if_pos hv] at hcur
    cases hcur
    rw [hw]
    exact h.dataWrite hv hrw
  | false =>
    have hw := hitWrite_of_current hv hcur hrw
    obtain ⟨hvalid, hs2, _, _, hcur'⟩ := of_hitWrite hw
    rw [hcur] at hcur'
    cases hcur'
    rw [hw]
    exact h.accepted_issued hvalid hs2

variable {d : D} {cmd : MemReqCmd}

/-- A beat `LLCData` takes is written where the write it serves wants it. -/
theorem WriteInv.array_write (h : WriteInv s g) {n k : ℕ}
    (hserving : (s.ledgerIn g).serving false = some (n, k)) (hdata : i.reqData = some d)
    (hresp : i.memResp = none) : ∃ cmd, g.accepted[n]? = some cmd ∧
      ∃ way, s.arrayIn i = some (.write ⟨way, cmd.addr % c.sets, k⟩ d) := by
  rw [ledgerIn_serving_false h.dataCounts, LLCData.jobIn, Option.bind_eq_some_iff] at hserving
  obtain ⟨r, hcur, hjob⟩ := hserving
  cases hrw : r.rw with
  | false => simp [hrw] at hjob
  | true =>
    rw [if_pos hrw] at hjob
    cases hjob
    refine ⟨r.toMemReqCmd, h.current hcur hrw, r.way, ?_⟩
    simp [arrayIn, LLCData.arrayIn, refillBeat, hresp, hcur, hrw, hdata]

/-- A beat `LLCWriteback` takes is sent to memory, behind the command of the write it serves. -/
theorem WriteInv.memory_write (h : WriteInv s g) {n k : ℕ}
    (hserving : (s.ledgerIn g).serving true = some (n, k)) (hdata : i.reqData = some d) :
    ∃ cmd, g.accepted[n]? = some cmd ∧ s.writeback.memData (s.wbData i) = some d ∧
      s.writeback.addr = cmd.addr := by
  rw [ledgerIn_serving_true, LLCWriteback.job] at hserving
  split at hserving
  · rename_i hbusy
    cases hserving
    simp only [Bool.and_eq_true, decide_eq_true_eq, Bool.not_eq_true'] at hbusy
    obtain ⟨⟨hvalid, hwho⟩, hsent⟩ := hbusy
    obtain ⟨cmd, hcmd, haddr⟩ := h.wbWrite hvalid hwho
    refine ⟨cmd, hcmd, ?_, haddr.symm⟩
    have hport : s.wbData i s.writeback.who = i.reqData := by rw [hwho]; rfl
    simp [memData, hvalid, hsent, hport, hdata]
  · cases hserving

/-- Whether a beat that is offered is delivered, in terms of who takes it. -/
theorem WriteInv.delivered_iff_takes (h : WriteInv s g) (hdata : i.reqData = some d) :
    Delivered (s, g) i ↔
      s.reqDataReady i = false ∧ s.dataTakes i = false ∧ s.wbTakes i = false ∨
      s.dataTakes i = true ∧ s.wbTakes i = false ∧ (s.ledgerIn g).serving false =
        some (g.beats / c.refillCycles, g.beats % c.refillCycles) ∨
      s.wbTakes i = true ∧ s.dataTakes i = false ∧ (s.ledgerIn g).serving true =
        some (g.beats / c.refillCycles, g.beats % c.refillCycles) := by
  cases hready : s.reqDataReady i with
  | false =>
    have hbeat : s.beat i = none := if_neg (by simp [hready])
    have htakes : s.dataTakes i = false ∧ s.wbTakes i = false := by
      rw [reqDataReady_eq g h.dataCounts, Bool.or_eq_false_iff] at hready
      rw [dataTakes_eq g h.dataCounts, wbTakes, wbDataFire, memData]
      refine ⟨by rw [Bool.and_assoc, hready.2, Bool.and_false], ?_⟩
      have hport := hready.1
      revert hport
      cases s.writeback.valid <;> cases i.memDataReady <;> simp
      intro hwho hwho'
      exact absurd hwho' hwho
    simp [Delivered, hbeat, htakes]
  | true =>
    have hbeat : s.beat i = some d := (if_pos hready).trans hdata
    rw [Delivered, hbeat]
    constructor
    · rintro ⟨cmd, _, ⟨hd, hw, hserving, _⟩ | ⟨hw, hd, hserving, _⟩⟩
      · exact .inr (.inl ⟨hd, hw, hserving⟩)
      · exact .inr (.inr ⟨hw, hd, hserving⟩)
    · rintro (⟨hfalse, _⟩ | ⟨hd, hw, hserving⟩ | ⟨hw, hd, hserving⟩)
      · cases hfalse
      · have hresp : i.memResp = none := by
          rw [dataTakes_eq g h.dataCounts, Bool.and_eq_true, Bool.and_eq_true] at hd
          exact Option.isNone_iff_eq_none.mp hd.1.2
        obtain ⟨cmd, hcmd, hwrite⟩ := h.array_write hserving hdata hresp
        exact ⟨cmd, hcmd, .inl ⟨hd, hw, hserving, hwrite⟩⟩
      · obtain ⟨cmd, hcmd, hmem, haddr⟩ := h.memory_write hserving hdata
        exact ⟨cmd, hcmd, .inr ⟨hw, hd, hserving, hmem, haddr⟩⟩

/-- **One beat.** It is delivered exactly if the CPU kept to the condition. -/
theorem WriteInv.delivered_iff (h : WriteInv s g) : Delivered (s, g) i ↔ BeatOk (s, g) i := by
  rcases hdata : i.reqData with _ | d
  · have hbeat : s.beat i = none := by simp [beat, hdata]
    simp [Delivered, BeatOk, hbeat, dataTakes, wbTakes_eq g, hdata]
  have hin := ledgerIn_inOrder h.inOrder
  have hnext := fun b n k => (hin.isNext_iff · : (s.ledgerIn g).serving b = some (n, k) → _)
  simp only [ledgerIn_taken] at hnext
  have hjob : (s.ledgerIn g).serving true = s.writeback.job g.wbOwner := ledgerIn_serving_true
  -- without a CPU write in need of data, `LLCWriteback` can only throw a beat away
  have hdrop : s.writeback.job g.wbOwner = none →
      ((s.writeback.valid = true → ¬s.writeback.who = 1) ↔
        (s.writeback.valid = true → s.writeback.who = 1 → s.writeback.dataSent = false)) := by
    intro hnone
    have hsent := LLCWriteback.job_eq_none.mp hnone
    refine ⟨fun hw hv hwho => absurd hwho (hw hv), fun hw hv hwho => ?_⟩
    rw [hw hv hwho] at hsent
    exact absurd (hsent hv hwho) (by decide)
  rw [h.delivered_iff_takes hdata, reqDataReady_eq g h.dataCounts, dataTakes_eq g h.dataCounts,
    wbTakes_eq g]
  rcases hA : (s.ledgerIn g).serving false with _ | ⟨n, k⟩ <;>
    rcases hB : (s.ledgerIn g).serving true with _ | ⟨m, j⟩
  · simp only [BeatOk, hA, hB, hdata]
    cases hm : i.memDataReady <;> simp [hdrop (hjob.symm.trans hB)]
  · obtain ⟨_, _, hsent⟩ := of_job_eq_some (hjob.symm.trans hB)
    have hturn := (hnext true m j hB).mp ⟨hB, by simp [hA]⟩
    simp only [BeatOk, hA, hB, hdata]
    cases hm : i.memDataReady <;> simp [hsent, hturn]
  · have hturn := (hnext false n k hA).mp ⟨hA, by simp [hB]⟩
    simp only [BeatOk, hA, hB, hdata]
    cases hm : i.memDataReady <;> rcases hr : i.memResp with _ | r <;>
      simp [hdrop (hjob.symm.trans hB), hturn]
  · obtain ⟨hvalid, hwho, hsent⟩ := of_job_eq_some (hjob.symm.trans hB)
    have hne := (hin.both false n k m j hA hB).1
    have hok : BeatOk (s, g) i ↔
        if n < m then i.memDataReady = false else i.memResp.isSome = true := by
      simp only [BeatOk, hA, hB, hdata, hsent]
      refine ⟨fun hbeat => (hbeat rfl).1 n k m j rfl rfl, fun hstall _ => ⟨?_, by simp⟩⟩
      intro _ _ _ _ h₁ h₂
      cases h₁
      cases h₂
      exact hstall
    rw [hok]
    by_cases hlt : n < m
    · have hturn := (hnext false n k hA).mp ⟨hA, fun m' j' hother => by
        cases hB.symm.trans hother
        exact hlt⟩
      have hother : ¬(m, j) = (g.beats / c.refillCycles, g.beats % c.refillCycles) :=
        fun heq => hne (congrArg Prod.fst (hturn.trans heq.symm))
      cases hm : i.memDataReady <;> rcases hr : i.memResp with _ | r <;>
        simp [hturn, hother, hlt, hdata, hvalid, hwho]
    · have hturn := (hnext true m j hB).mp ⟨hB, fun n' k' hother => by
        cases hA.symm.trans hother
        omega⟩
      have hother : ¬(n, k) = (g.beats / c.refillCycles, g.beats % c.refillCycles) :=
        fun heq => hne (congrArg Prod.fst (heq.trans hturn.symm))
      cases hm : i.memDataReady <;> rcases hr : i.memResp with _ | r <;>
        simp [hturn, hother, hlt, hdata, hvalid, hwho]

/-! ### One cycle -/

theorem wbCounts_next (h : s.writeback.Counts c) : (s.next i).writeback.Counts c := by
  cases hv : s.writeback.valid with
  | false =>
    obtain ⟨hdata, hcmd⟩ := wbFire_of_idle (i := i) hv
    change (s.writeback.next c s.wbReq (s.wbDataFire i) (s.wbCmdFire i)).Counts c
    rw [hdata, hcmd]
    exact h.next_of_idle hv
  | true => exact h.next_of_valid hv dataSent_of_wbDataFire

theorem data_job_next (g : WriteHistory) (h : s.data.Counts) :
    (s.next i).data.job (s.nextHistory i g).dataOwner =
      if s.dataTakes i then ((s.ledgerIn g).serving false).bind (Ledger.served c.refillCycles)
      else (s.ledgerIn g).serving false := by
  rw [dataTakes_eq g h, ledgerIn_serving_false h]
  refine (LLCData.job_next h rfl).trans ?_
  have hresp : (s.refillBeat i).isNone = i.memResp.isNone := by
    simp [refillBeat]
  rw [hresp]
  change (if _ then (LLCData.jobIn _ _ _ (if s.hitWrite then g.issued else g.dataOwner)).bind _
    else LLCData.jobIn _ _ _ (if s.hitWrite then g.issued else g.dataOwner)) = _
  generalize s.data.jobIn s.dataReq s.victimReady _ = job
  rcases job with _ | job <;> simp

theorem wb_job_next (g : WriteHistory) (h : s.writeback.Counts c) :
    (s.next i).writeback.job (s.nextHistory i g).wbOwner =
      if s.missWrite then some (g.issued, 0)
      else if s.wbTakes i then ((s.ledgerIn g).serving true).bind (Ledger.served c.refillCycles)
      else (s.ledgerIn g).serving true := by
  rw [ledgerIn_serving_true]
  change (s.writeback.next c s.wbReq (s.wbDataFire i) (s.wbCmdFire i)).job
    (if s.missWrite then g.issued else g.wbOwner) = _
  cases hv : s.writeback.valid with
  | false =>
    obtain ⟨hdata, hcmd⟩ := wbFire_of_idle (i := i) hv
    have hnone : s.writeback.job g.wbOwner = none := by simp [LLCWriteback.job, hv]
    rw [hdata, hcmd, LLCWriteback.next_of_idle hv, hnone]
    cases hm : s.missWrite with
    | true =>
      rw [(of_missWrite hm).2.2.2]
      simp [LLCWriteback.job, h.idle (.inl hv)]
    | false =>
      rcases hreq : nextReq s.wbReq with _ | ⟨who, addr⟩
      · simp [LLCWriteback.job, hv]
      · have hwho : who ≠ 1 := by
          rintro rfl
          rw [missWrite_of_nextReq hv hreq] at hm
          cases hm
        simp [LLCWriteback.job, hwho]
  | true =>
    have hm : s.missWrite = false := by
      by_contra hm
      have := (of_missWrite (by simpa using hm)).2.2.1
      rw [hv] at this
      cases this
    rw [job_next_of_valid h hv dataSent_of_wbDataFire, hm, wbTakes]
    by_cases hwho : s.writeback.who = 1
    · simp [hwho]
    · simp [LLCWriteback.job, hwho]

/-- Exactly the unit whose turn it is takes the beat, if there is one. -/
theorem WriteInv.takes (h : WriteInv s g) (hok : Delivered (s, g) i) :
    ((s.beat i).isSome = false ∧ s.dataTakes i = false ∧ s.wbTakes i = false) ∨
    ∃ b n k, (s.ledgerIn g).IsNext b n k ∧ (s.beat i).isSome = true ∧
      s.dataTakes i = !b ∧ s.wbTakes i = b := by
  have hin := ledgerIn_inOrder h.inOrder
  rcases hbeat : s.beat i with _ | d
  · simp only [Delivered, hbeat] at hok
    exact .inl ⟨rfl, hok⟩
  · simp only [Delivered, hbeat] at hok
    obtain ⟨cmd, _, ⟨hd, hw, hserving, _⟩ | ⟨hw, hd, hserving, _⟩⟩ := hok
    · exact .inr ⟨false, _, _, (hin.isNext_iff hserving).mpr (by rw [ledgerIn_taken]), rfl, hd, hw⟩
    · exact .inr ⟨true, _, _, (hin.isNext_iff hserving).mpr (by rw [ledgerIn_taken]), rfl, hd, hw⟩

/-- The ledger stays in order over a cycle that delivers its beat. -/
theorem WriteInv.inOrder_next (h : WriteInv s g) (hok : Delivered (s, g) i) :
    ((s.next i).ledger (s.nextHistory i g)).InOrder c.refillCycles := by
  have hin := ledgerIn_inOrder h.inOrder
  have hR : 0 < c.refillCycles := Nat.two_pow_pos _
  have hissued : (s.ledgerIn g).issued = g.issued + if s.hitWrite then 1 else 0 := by
    rw [ledgerIn]
    split <;> rfl
  -- the ledger once the beat is taken
  obtain ⟨L, hL, hLissued, hLtaken, hLfalse, hLtrue⟩ : ∃ L : Ledger, L.InOrder c.refillCycles ∧
      L.issued = (s.ledgerIn g).issued ∧
      L.taken = g.beats + (if (s.beat i).isSome then 1 else 0) ∧
      L.serving false = (if s.dataTakes i then
        ((s.ledgerIn g).serving false).bind (Ledger.served c.refillCycles)
        else (s.ledgerIn g).serving false) ∧
      L.serving true = (if s.wbTakes i then
        ((s.ledgerIn g).serving true).bind (Ledger.served c.refillCycles)
        else (s.ledgerIn g).serving true) := by
    rcases h.takes hok with ⟨hbeat, hd, hw⟩ | ⟨b, n, k, hnext, hbeat, hd, hw⟩
    · exact ⟨s.ledgerIn g, hin, rfl, by rw [hbeat, ledgerIn_taken]; rfl, by rw [hd]; rfl,
        by rw [hw]; rfl⟩
    · refine ⟨(s.ledgerIn g).take c.refillCycles b, hin.take hnext, rfl, ?_, ?_, ?_⟩
      · rw [hbeat, ← ledgerIn_taken (s := s)]
        rfl
      · cases b
        · rw [hd]
          exact Ledger.serving_take_self
        · rw [hd]
          exact Ledger.serving_take_not
      · cases b
        · rw [hw]
          exact Ledger.serving_take_not
        · rw [hw]
          exact Ledger.serving_take_self
  have hdata := data_job_next (i := i) g h.dataCounts
  have hwb := wb_job_next (i := i) g h.wbCounts
  cases hm : s.missWrite with
  | true =>
    obtain ⟨_, _, hidle, _⟩ := of_missWrite hm
    have hhit : s.hitWrite = false := by
      by_contra hhit
      have := (of_hitWrite (by simpa using hhit)).2.2.2.1
      rw [hm] at this
      cases this
    have hfree : L.serving true = none := by
      rw [hLtrue, ledgerIn_serving_true, LLCWriteback.job, hidle]
      simp
    have heq : (s.next i).ledger (s.nextHistory i g) = L.issue true := by
      rw [hhit] at hissued
      refine Ledger.ext ?_ hLtaken.symm (funext fun b => ?_)
      · change g.issued + (if s.hitWrite || s.missWrite then 1 else 0) = L.issued + 1
        rw [hhit, hm, hLissued, hissued]
        rfl
      · cases b
        · have hother : (L.issue true).serving (!true) = L.serving false := Ledger.serving_issue_not
          exact (hdata.trans hLfalse.symm).trans hother.symm
        · refine (hwb.trans ?_).trans Ledger.serving_issue_self.symm
          rw [hm, hLissued, hissued]
          rfl
    rw [heq]
    exact hL.issue hR hfree
  | false =>
    have heq : (s.next i).ledger (s.nextHistory i g) = L := by
      refine Ledger.ext ?_ hLtaken.symm (funext fun b => ?_)
      · change g.issued + (if s.hitWrite || s.missWrite then 1 else 0) = L.issued
        rw [hm, Bool.or_false, hLissued, hissued]
      · cases b
        · exact hdata.trans hLfalse.symm
        · rw [hm] at hwb
          exact hwb.trans hLtrue.symm
    rw [heq]
    exact hL

/-- Accepting one more write does not renumber the earlier ones. -/
theorem getElem?_nextHistory {n : ℕ} (h : g.accepted[n]? = some cmd) :
    (s.nextHistory i g).accepted[n]? = some cmd := by
  change (g.accepted ++ _)[n]? = some cmd
  rw [List.getElem?_append_left (List.getElem?_eq_some_iff.mp h).1]
  exact h

theorem reqCmdFire_of_inFlight (h : s.inFlight = some cmd) :
    s.reqCmdFire i = none := by
  rw [inFlight] at h
  cases h₁ : s.s1Valid <;> cases h₂ : s.s2Valid <;> cases h₃ : s.replayS2 <;>
    simp [reqCmdFire, reqCmdReady, h₁, h₂, h₃] at h ⊢

theorem OneCommand.inFlight_eq (h : s.OneCommand) (hvalid : s.s2Valid = true) :
    s.inFlight = some s.s2 := by
  rcases h with ⟨_, h₂, _⟩ | ⟨_, h₂, _⟩ | ⟨h₁, _, _⟩ | ⟨_, h₂, _⟩
  · exact absurd (hvalid.symm.trans h₂) (by decide)
  · exact absurd (hvalid.symm.trans h₂) (by decide)
  · simp [inFlight, h₁, hvalid]
  · exact absurd (hvalid.symm.trans h₂) (by decide)

/-- A write reaches a unit exactly when it leaves `s2`. -/
theorem issue_eq : (s.hitWrite || s.missWrite) = (s.s2Valid && s.s3Rdy && s.s2.rw) := by
  cases hw : s.hitWrite || s.missWrite with
  | true =>
    obtain ⟨hvalid, hrw⟩ : s.s2Valid = true ∧ s.s2.rw = true := by
      rcases Bool.or_eq_true_iff.mp hw with hw | hw
      · exact ⟨(of_hitWrite hw).1, (of_hitWrite hw).2.1⟩
      · exact ⟨(of_missWrite hw).1, (of_missWrite hw).2.1⟩
    rw [s3Rdy_of_write hvalid hrw, hw, hvalid, hrw]
    rfl
  | false =>
    cases hvalid : s.s2Valid with
    | false => rfl
    | true =>
      cases hrw : s.s2.rw with
      | false => rw [Bool.and_false]
      | true => rw [s3Rdy_of_write hvalid hrw, hw]; rfl

theorem WriteInv.accepted_next (h : WriteInv s g) :
    ∃ done : List MemReqCmd, done.length = (s.nextHistory i g).issued ∧
      (s.nextHistory i g).accepted = done ++ ((s.next i).inFlight.filter (·.rw)).toList := by
  obtain ⟨done, hlen, hacc⟩ := h.accepted
  have hissued : (s.nextHistory i g).issued =
      g.issued + if s.s2Valid && s.s3Rdy && s.s2.rw then 1 else 0 := by
    rw [← issue_eq]
    rfl
  have haccepted : (s.nextHistory i g).accepted =
      g.accepted ++ ((s.reqCmdFire i).filter (·.rw)).toList := rfl
  rw [h.oneCommand.next.2, haccepted, hissued]
  cases hleave : s.s2Valid && s.s3Rdy with
  | true =>
    have hflight := h.oneCommand.inFlight_eq (Bool.and_eq_true_iff.mp hleave).1
    rw [hflight] at hacc
    refine ⟨g.accepted, ?_, by simp [reqCmdFire_of_inFlight hflight]⟩
    cases hrw : s.s2.rw <;> simp [hacc, hrw, hlen, Option.filter]
  | false =>
    refine ⟨done, by simpa using hlen, ?_⟩
    rcases hflight : s.inFlight with _ | cmd
    · rw [hflight] at hacc
      simp [hacc]
    · rw [hflight] at hacc
      simp [hacc, reqCmdFire_of_inFlight hflight]

theorem WriteInv.wbWrite_next (h : WriteInv s g) (hvalid : (s.next i).writeback.valid = true)
    (hwho : (s.next i).writeback.who = 1) :
    ∃ cmd, (s.nextHistory i g).accepted[(s.nextHistory i g).wbOwner]? = some cmd ∧
      cmd.addr = (s.next i).writeback.addr := by
  change (s.writeback.next c s.wbReq (s.wbDataFire i) (s.wbCmdFire i)).valid = true at hvalid
  change (s.writeback.next c s.wbReq (s.wbDataFire i) (s.wbCmdFire i)).who = 1 at hwho
  change ∃ cmd, (s.nextHistory i g).accepted[if s.missWrite then g.issued else g.wbOwner]? =
    some cmd ∧ cmd.addr = (s.writeback.next c s.wbReq (s.wbDataFire i) (s.wbCmdFire i)).addr
  cases hv : s.writeback.valid with
  | false =>
    obtain ⟨hdata, hcmd⟩ := wbFire_of_idle (i := i) hv
    rw [hdata, hcmd, LLCWriteback.next_of_idle hv] at hvalid hwho ⊢
    rcases hreq : nextReq s.wbReq with _ | ⟨who, addr⟩
    · simp [hreq, hv] at hvalid
    · have hone : who = 1 := by simpa [hreq] using hwho
      subst hone
      have hm := missWrite_of_nextReq hv hreq
      obtain ⟨hs2, hrw, _, hreq'⟩ := of_missWrite hm
      rw [hreq] at hreq'
      cases hreq'
      exact ⟨s.s2, by rw [hm]; exact getElem?_nextHistory (h.accepted_issued hs2 hrw), rfl⟩
  | true =>
    have hm : s.missWrite = false := by
      by_contra hm
      exact absurd (hv.symm.trans (of_missWrite (by simpa using hm)).2.2.1) (by decide)
    rw [LLCWriteback.next_of_valid hv] at hwho ⊢
    obtain ⟨cmd, hcmd, haddr⟩ := h.wbWrite hv hwho
    exact ⟨cmd, by rw [hm]; exact getElem?_nextHistory hcmd, haddr⟩

theorem WriteInv.dataWrite_next (h : WriteInv s g) (hvalid : (s.next i).data.valid = true)
    (hrw : (s.next i).data.req.rw = true) :
    (s.nextHistory i g).accepted[(s.nextHistory i g).dataOwner]? =
      some (s.next i).data.req.toMemReqCmd := by
  obtain ⟨hnext, hreq, _⟩ := LLCData.next_eq
    (rfl : (s.next i).data = s.data.next s.dataReq s.victimReady i.reqData (s.refillBeat i)
      i.respReady (s.writeback.dataReady i.memDataReady 0)) rfl
  rw [hnext] at hvalid
  obtain ⟨r, hcur⟩ := Option.isSome_iff_exists.mp (Bool.and_eq_true_iff.mp hvalid).1
  rw [hcur] at hreq
  rw [hreq] at hrw ⊢
  exact getElem?_nextHistory (h.current hcur hrw)

theorem WriteInv.next (h : WriteInv s g) (hok : Delivered (s, g) i) :
    WriteInv (s.next i) (s.nextHistory i g) where
  oneCommand := h.oneCommand.next.1
  accepted := h.accepted_next
  wbCounts := wbCounts_next h.wbCounts
  dataCounts := h.dataCounts.next rfl
  wbWrite := h.wbWrite_next
  dataWrite := h.dataWrite_next
  inOrder := h.inOrder_next hok

theorem WriteInv.of_isReset (h : s.IsReset) : WriteInv s ⟨[], 0, 0, 0, 0⟩ where
  oneCommand := .idle h.s1Valid h.s2Valid h.replayS2
  accepted := ⟨[], rfl, by simp [inFlight, h.s1Valid, h.s2Valid, h.replayS2]⟩
  wbCounts := ⟨h.wbCount ▸ Nat.two_pow_pos _, fun _ => h.wbCount⟩
  dataCounts := ⟨h.dataCount ▸ Nat.two_pow_pos _, fun _ => h.dataCount⟩
  wbWrite hv := absurd (hv.symm.trans h.wbValid) (by decide)
  dataWrite hv := absurd (hv.symm.trans h.dataValid) (by decide)
  inOrder := by
    have hnone : ∀ b, (s.ledger ⟨[], 0, 0, 0, 0⟩).serving b = none := by
      intro b
      cases b
      · simp [ledger, LLCData.job, h.dataValid]
      · simp [ledger, LLCWriteback.job, h.wbValid]
    refine ⟨fun _ => rfl, fun b n k hb => ?_, fun b n k hb => ?_, fun b n k m j hb => ?_⟩ <;>
      exact absurd (hb.symm.trans (hnone b)) (by simp)

/-- **Write data follows its command.** As long as every beat was offered as `BeatOk` asks, the
beat of this cycle reaches the write it belongs to exactly if it is offered so too. -/
theorem delivered_iff_beatOk (c : LLCConf) (D : Type) :
    ∀ s, ((writeMachine c D).restrict BeatOk).Reachable s → ∀ i, Delivered s i ↔ BeatOk s i := by
  have hinv : ∀ s, ((writeMachine c D).restrict BeatOk).Reachable s → WriteInv s.1 s.2 := by
    refine Machine.invariant ?_ ?_
    · rintro ⟨s, g⟩ ⟨hreset, rfl⟩
      exact .of_isReset hreset
    · rintro ⟨s, g⟩ i ⟨s', g'⟩ _ h ⟨hok, rfl, rfl⟩
      exact h.next (h.delivered_iff.mpr hok)
  exact fun s hs i => (hinv s hs).delivered_iff

theorem writeMachine_reset (d : D) : (writeMachine c D).Reachable (reset d, ⟨[], 0, 0, 0, 0⟩) :=
  .init ⟨isReset_reset d, rfl⟩

/-- The CPU offers a beat, and memory has room for it. -/
def offer : LLCInput .small Bool :=
  { LLCInput.quiet with reqData := some true, memDataReady := true }

instance (s : DRAMSideLLC c D × WriteHistory) (i : LLCInput c D) : Decidable (BeatOk s i) :=
  decidable_of_iff (i.reqData.isSome = true →
    (∀ p ∈ (s.1.ledgerIn s.2).serving false, ∀ q ∈ (s.1.ledgerIn s.2).serving true,
      if p.1 < q.1 then i.memDataReady = false else i.memResp.isSome = true) ∧
    (s.1.writeback.valid = true → s.1.writeback.who = 1 → s.1.writeback.dataSent = true →
      i.memDataReady = true →
      ((s.1.ledgerIn s.2).serving false).isSome = true ∧ i.memResp.isNone = true))
    (imp_congr_right fun _ => and_congr
      ⟨fun h n k m j hp hq => h (n, k) hp (m, j) hq, fun h p hp q hq => h _ _ _ _ hp hq⟩
      (by simp only [Option.isNone_iff_eq_none]))

/-- A write miss, and the first of its beats. -/
def oneBeat : List (LLCInput .small Bool) :=
  [.quiet, .quiet, { LLCInput.quiet with reqCmd := some ⟨true, 1, 0⟩ }, .quiet, .quiet, offer]

def afterOneBeat : DRAMSideLLC .small Bool × WriteHistory :=
  Machine.cycles next nextHistory oneBeat (reset false, ⟨[], 0, 0, 0, 0⟩)

/-- The second one is delivered too, as beat `1` of write `0`. -/
theorem delivered_iff_beatOk_oneBeat : afterOneBeat.2.beats = 1 ∧
    afterOneBeat.1.beat offer = some true ∧ Delivered afterOneBeat offer := by
  have hstart : ((writeMachine .small Bool).restrict BeatOk).Reachable
      (reset false, ⟨[], 0, 0, 0, 0⟩) := .init ⟨isReset_reset false, rfl⟩
  have hreach := Machine.reachable_restrict_cycles hstart oneBeat (by decide +kernel)
  exact ⟨by decide +kernel, by decide +kernel,
    (delivered_iff_beatOk .small Bool _ hreach offer).mpr (by decide +kernel)⟩

/-- Two write misses. The second one is still in the pipeline when its first beat is offered, and
`LLCWriteback`, which has all the data of the first but could not send its command, is ready. -/
def twoMisses : List (LLCInput .small Bool) :=
  [.quiet, .quiet, { LLCInput.quiet with reqCmd := some ⟨true, 0, 0⟩ }, .quiet, .quiet,
    { offer with reqCmd := some ⟨true, 2, 0⟩ }, offer]

/-- The beat that follows is taken from the CPU and goes nowhere. -/
theorem not_delivered :
    ¬∀ s, (writeMachine .small Bool).Reachable s → ∀ i, Delivered s i := by
  intro h
  have hrun : ∃ s, (writeMachine .small Bool).Reachable s ∧ s.1.beat offer = some true ∧
      s.1.dataTakes offer = false ∧ s.1.wbTakes offer = false :=
    ⟨Machine.cycles next nextHistory twoMisses (reset false, ⟨[], 0, 0, 0, 0⟩),
      Machine.reachable_cycles (writeMachine_reset false) twoMisses,
      by decide +kernel, by decide +kernel, by decide +kernel⟩
  obtain ⟨s, hreach, hbeat, hdata, hwb⟩ := hrun
  have hdel := h s hreach offer
  simp only [Delivered, hbeat, hdata, hwb] at hdel
  obtain ⟨_, _, ⟨hfalse, _⟩ | ⟨hfalse, _⟩⟩ := hdel
  · cases hfalse
  · cases hfalse

end DRAMSideLLC

end RiscvSoc
