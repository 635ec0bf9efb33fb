import RiscvSoc.Uncore.MemSerdes

/-!
# The narrow memory link is transparent

The two sides of the link count for themselves, so the argument is that they stay in step. `need`
says what a side is going to send or receive next, when it is through with what it has: a command,
or the beat of a write with a certain number. The two sides need the same (`InStep.need`). While a
message crosses the link both have counted the same chunks, and those that crossed are in the
receiver's register (`InStep.together`).

The responses are counted in the state `sReply`, where nothing else crosses the link. For this the
memory must keep its promise: it sends no beat that it was not asked for.
-/

namespace RiscvSoc

namespace Serdes

open Bits MemSerdes

variable {c : MemSerdesConf}

/-! ### Widths -/

namespace MemSerdesConf

variable (c)

theorem abits_pos : 0 < c.abits := Nat.succ_pos _

theorem abits_le_dbits : c.abits ≤ c.dbits := c.abits_le

theorem dbits_pos : 0 < c.dbits := c.abits_pos.trans_le c.abits_le_dbits

theorem dbits_le_rbits : c.dbits ≤ c.rbits := Nat.le_add_right ..

theorem rbits_pos : 0 < c.rbits := c.dbits_pos.trans_le c.dbits_le_rbits

/-- `(bits - 1) / w` is the number of the last chunk. -/
theorem last_eq {bits : ℕ} (h : 0 < bits) : (bits - 1) / c.w = chunks c.w bits - 1 := by
  rw [chunks_eq c.w_pos h, Nat.add_sub_cancel]

theorem chunks_pos {bits : ℕ} (h : 0 < bits) : 0 < chunks c.w bits := by
  rw [chunks_eq c.w_pos h]
  exact Nat.succ_pos _

end MemSerdesConf

/-! ### Messages -/

/-- What crosses the link towards the memory. -/
inductive MemMsg (c : MemSerdesConf)
  | cmd (r : MemReqCmd c)
  | beat (d : BitVec c.dataBits)
  deriving DecidableEq

namespace MemMsg

def bits : MemMsg c → ℕ
  | cmd r => r.toBits
  | beat d => d.toNat

def width : MemMsg c → ℕ
  | cmd _ => c.abits
  | beat _ => c.dbits

/-- The state in which `MemSerdes` sends it. -/
def sendState : MemMsg c → SerState
  | cmd r => if r.rw then .sWriteAddr else .sReadAddr
  | beat _ => .sWriteData

/-- The states in which `MemDesser` receives it and passes it on. -/
def recvState : MemMsg c → DesState
  | cmd _ => .sCmdRecv
  | beat _ => .sDataRecv

def holdState : MemMsg c → DesState
  | cmd _ => .sCmd
  | beat _ => .sData

/-- What is needed after it: a command, or the beat of this number. A beat is the one number
`cnt`. -/
def after (cnt : ℕ) : MemMsg c → Option ℕ
  | cmd r => if r.rw then some 0 else none
  | beat _ => if cnt = c.dataBeats - 1 then none else some (cnt + 1)

/-- The number of the next beat. -/
def count (cnt : ℕ) : MemMsg c → ℕ
  | cmd _ => cnt
  | beat _ => (cnt + 1) % c.dataBeats

variable (m : MemMsg c)

/-- What is needed next is the beat with the next number, or a command, and then no beat is
counted. -/
theorem after_cases {cnt : ℕ} (hlt : cnt < c.dataBeats) (hcmd : ∀ r, m = cmd r → cnt = 0) :
    (m.after cnt = none ∧ m.count cnt = 0 ∨ m.after cnt = some (m.count cnt)) ∧
      m.count cnt < c.dataBeats := by
  cases m with
  | cmd r =>
    obtain rfl := hcmd r rfl
    cases hrw : r.rw <;> simp [after, count, hrw, hlt]
  | beat d =>
    refine ⟨?_, Nat.mod_lt _ (NeZero.pos _)⟩
    rw [after, count]
    by_cases hlast : cnt = c.dataBeats - 1
    · exact .inl ⟨if_pos hlast, by rw [show cnt + 1 = c.dataBeats by omega, Nat.mod_self]⟩
    · exact .inr (by rw [if_neg hlast, Nat.mod_eq_of_lt (by omega)])

theorem width_pos : 0 < m.width := by
  cases m with
  | cmd _ => exact c.abits_pos
  | beat _ => exact c.dbits_pos

theorem bits_lt : m.bits < 2 ^ m.width := by
  cases m with
  | cmd r => exact r.toBits_lt
  | beat d => exact d.isLt

theorem width_le : m.width ≤ c.dbits := by
  cases m with
  | cmd _ => exact c.abits_le_dbits
  | beat _ => exact Nat.le_refl _

theorem bits_lt_chunks : m.bits < 2 ^ (chunks c.w m.width * c.w) :=
  m.bits_lt.trans_le (Nat.pow_le_pow_right two_pos (le_chunks c.w_pos))

theorem chunks_le : chunks c.w m.width ≤ chunks c.w c.rbits :=
  chunks_mono (m.width_le.trans c.dbits_le_rbits)

/-- The counter of `MemSerdes` has room for the chunks. -/
theorem chunks_le_two_pow :
    chunks c.w m.width ≤ 2 ^ log2Up (chunks c.w (max c.abits c.dbits)) :=
  (chunks_mono (m.width_le.trans (Nat.le_max_right ..))).trans (le_two_pow_log2Up _)

end MemMsg

/-! ### `MemSerdes` sends -/

namespace MemSerdes

variable (s : MemSerdes c) (i : MemSerdesInput c)

/-- What it takes from its wide end in this cycle. -/
def sent : List (MemMsg c) :=
  ((s.takesCmd i).map MemMsg.cmd).toList ++ ((s.takesData i).map MemMsg.beat).toList

/-- What it is going to send next: a command, or the beat of this number. -/
def need : Option ℕ :=
  match s.state with
  | .sWriteIdle | .sWriteData => some s.dataSendCnt
  | _ => none

/-- It is sending this message, or none. -/
def Carries : Option (MemMsg c) → Prop
  | none => (s.state = .sIdle ∨ s.state = .sWriteIdle) ∧ s.sendCnt = 0
  | some m => s.state = m.sendState ∧ s.outBuf = m.bits / 2 ^ (s.sendCnt * c.w) ∧
      s.sendCnt < chunks c.w m.width

variable {s i} {m : MemMsg c}

theorem Carries.narrowReqValid {cur : Option (MemMsg c)} (h : s.Carries cur) :
    s.narrowReqValid = cur.isSome := by
  rw [MemSerdes.narrowReqValid]
  cases cur with
  | none =>
    obtain ⟨hstate | hstate, -⟩ := h
    all_goals rw [hstate]; rfl
  | some m =>
    rw [h.1]
    cases m with
    | cmd r => rw [MemMsg.sendState]; cases r.rw <;> rfl
    | beat d => rfl

theorem Carries.sent_eq_nil (h : s.Carries (some m)) : s.sent i = [] := by
  have hstate : s.state ≠ .sIdle ∧ s.state ≠ .sWriteIdle := by
    rw [h.1]
    cases m with
    | cmd r => rw [MemMsg.sendState]; cases r.rw <;> exact ⟨by simp, by simp⟩
    | beat d => exact ⟨by simp [MemMsg.sendState], by simp [MemMsg.sendState]⟩
  rw [sent, takesCmd, takesData, if_neg hstate.1, if_neg hstate.2]
  rfl

theorem Carries.narrowReqBits (h : s.Carries (some m)) :
    s.narrowReqBits = chunk c.w m.bits s.sendCnt := by
  rw [MemSerdes.narrowReqBits, h.2.1]
  rfl

theorem Carries.sendDone (h : s.Carries (some m)) :
    s.sendDone i = (i.narrowReqReady && s.sendCnt == chunks c.w m.width - 1) := by
  rw [MemSerdes.sendDone, h.1]
  cases m with
  | cmd r =>
    have hdone : s.adone i = (i.narrowReqReady && s.sendCnt == chunks c.w c.abits - 1) := by
      rw [adone, c.last_eq c.abits_pos]
    rw [MemMsg.sendState]
    cases r.rw <;> exact hdone
  | beat d =>
    show s.ddone i = (i.narrowReqReady && s.sendCnt == chunks c.w c.dbits - 1)
    rw [ddone, c.last_eq c.dbits_pos]

/-- The beats of writes are counted from zero to the last one. -/
structure Sends (s : MemSerdes c) (cur : Option (MemMsg c)) : Prop where
  carries : s.Carries cur
  zero : s.need = none → s.dataSendCnt = 0
  lt : s.dataSendCnt < c.dataBeats

/-- Where a message leaves `MemSerdes`. -/
theorem Carries.nextState (h : s.Carries (some m)) : s.nextState i =
    if s.sendDone i then if (m.after s.dataSendCnt).isSome then .sWriteIdle else .sIdle
    else m.sendState := by
  rw [MemSerdes.nextState, MemSerdes.sendDone, h.1]
  cases m with
  | cmd r =>
    rw [MemMsg.sendState, MemMsg.after]
    cases r.rw <;> rfl
  | beat d =>
    rw [MemMsg.after]
    show (if s.ddone i then if s.dataSendCnt = c.dataBeats - 1 then SerState.sIdle else .sWriteIdle
      else .sWriteData) = if s.ddone i then _ else _
    by_cases hlast : s.dataSendCnt = c.dataBeats - 1
    · rw [if_pos hlast, if_pos hlast]
      rfl
    · rw [if_neg hlast, if_neg hlast]
      rfl

theorem Carries.nextOutBuf (h : s.Carries (some m)) :
    s.nextOutBuf i = if i.narrowReqReady then s.outBuf / 2 ^ c.w else s.outBuf := by
  have hsent := h.sent_eq_nil (i := i)
  have hcmd : s.takesCmd i = none := by
    cases hcmd : s.takesCmd i with
    | none => rfl
    | some r => rw [sent, hcmd] at hsent; cases hsent
  have hdata : s.takesData i = none := by
    cases hdata : s.takesData i with
    | none => rfl
    | some d => rw [sent, hcmd, hdata] at hsent; cases hsent
  rw [MemSerdes.nextOutBuf, hcmd, hdata, h.narrowReqValid]
  rfl

theorem Carries.next_dataSendCnt (h : s.Carries (some m)) : (s.next i).dataSendCnt =
    if s.sendDone i then m.count s.dataSendCnt else s.dataSendCnt := by
  rw [MemSerdes.next, MemSerdes.sendDone, h.1]
  cases m with
  | cmd r =>
    rw [MemMsg.sendState]
    cases r.rw <;> simp [MemMsg.count]
  | beat d =>
    cases hdone : s.ddone i <;> simp [MemMsg.sendState, MemMsg.count, MemSerdesConf.dataBeats]

theorem need_congr {s' : MemSerdes c} (hstate : s'.state = s.state)
    (hcnt : s'.dataSendCnt = s.dataSendCnt) : s'.need = s.need := by
  rw [need, need, hstate, hcnt]

theorem Sends.next_of_none (h : s.Sends none) :
    ∃ cur, (s.next i).Sends cur ∧ s.sent i = cur.toList ∧ (s.next i).need = s.need ∧
      (s.next i).sendCnt = 0 := by
  have hvalid := h.carries.narrowReqValid
  obtain ⟨⟨hstate, hcnt⟩, hzero, hlt⟩ := h
  have hdone : s.sendDone i = false := by
    rw [MemSerdes.sendDone]
    rcases hstate with hstate | hstate
    all_goals rw [hstate]
  have hcnt' : (s.next i).sendCnt = 0 := by
    rw [MemSerdes.next, hdone, hvalid, hcnt]
    rfl
  have hdata : (s.next i).dataSendCnt = s.dataSendCnt := by
    rw [MemSerdes.next]
    rcases hstate with hstate | hstate
    all_goals rw [hstate]; rfl
  suffices hcur : ∃ cur, (s.next i).Carries cur ∧ s.sent i = cur.toList ∧
      (s.next i).need = s.need by
    obtain ⟨cur, hcarries, hsent, hneed⟩ := hcur
    exact ⟨cur, ⟨hcarries, by rw [hneed, hdata]; exact hzero, hdata ▸ hlt⟩, hsent, hneed, hcnt'⟩
  have hfresh : ∀ m : MemMsg c, (s.next i).state = m.sendState → (s.next i).outBuf = m.bits →
      (s.next i).Carries (some m) := by
    intro m hstate' hbuf'
    refine ⟨hstate', ?_, ?_⟩
    · rw [hbuf', hcnt', Nat.zero_mul, pow_zero, Nat.div_one]
    · rw [hcnt']
      exact c.chunks_pos m.width_pos
  rcases hstate with hstate | hstate
  · cases hcmd : i.wideReqCmd with
    | none =>
      have hstate' : (s.next i).state = s.state := by
        rw [MemSerdes.next, MemSerdes.nextState, hstate, hcmd]
      refine ⟨none, ⟨.inl (hstate'.trans hstate), hcnt'⟩, ?_, need_congr hstate' hdata⟩
      rw [sent, takesCmd, takesData, hstate, hcmd]
      rfl
    | some r =>
      have hstate' : (s.next i).state = (MemMsg.cmd r).sendState := by
        rw [MemSerdes.next, MemSerdes.nextState, hstate, hcmd]
        rfl
      refine ⟨some (.cmd r), hfresh _ hstate' ?_, ?_, ?_⟩
      · rw [MemSerdes.next, MemSerdes.nextOutBuf, takesData, takesCmd, hstate, hcmd]
        rfl
      · rw [sent, takesCmd, takesData, hstate, hcmd]
        rfl
      · rw [need, need, hstate, hstate', MemMsg.sendState]
        cases r.rw <;> rfl
  · cases hbeat : i.wideReqData with
    | none =>
      have hstate' : (s.next i).state = s.state := by
        rw [MemSerdes.next, MemSerdes.nextState, hstate, hbeat]
        rfl
      refine ⟨none, ⟨.inr (hstate'.trans hstate), hcnt'⟩, ?_, need_congr hstate' hdata⟩
      rw [sent, takesCmd, takesData, hstate, hbeat]
      rfl
    | some d =>
      have hstate' : (s.next i).state = .sWriteData := by
        rw [MemSerdes.next, MemSerdes.nextState, hstate, hbeat]
        rfl
      refine ⟨some (.beat d), hfresh _ hstate' ?_, ?_, ?_⟩
      · rw [MemSerdes.next, MemSerdes.nextOutBuf, takesData, hstate, hbeat]
        rfl
      · rw [sent, takesCmd, takesData, hstate, hbeat]
        rfl
      · rw [need, need, hstate, hstate', hdata]

/-- Its message has not left yet. -/
theorem Sends.next_of_not_done (h : s.Sends (some m)) (hdone : s.sendDone i = false)
    (hcarries : (s.next i).state = s.state → (s.next i).Carries (some m)) :
    (s.next i).Sends (some m) ∧ (s.next i).need = s.need := by
  have hstate : (s.next i).state = s.state := by
    rw [show (s.next i).state = s.nextState i from rfl, h.carries.nextState, hdone, h.carries.1]
    rfl
  have hdata : (s.next i).dataSendCnt = s.dataSendCnt := by
    rw [h.carries.next_dataSendCnt, hdone]
    rfl
  have hneed := need_congr hstate hdata
  refine ⟨⟨hcarries hstate, ?_, hdata ▸ h.lt⟩, hneed⟩
  rw [hneed, hdata]
  exact h.zero

/-- It has something to send, and the other side does not take it. -/
theorem Sends.next_of_not_ready (h : s.Sends (some m)) (hready : i.narrowReqReady = false) :
    (s.next i).Sends (some m) ∧ (s.next i).need = s.need ∧ (s.next i).sendCnt = s.sendCnt := by
  have hdone : s.sendDone i = false := by rw [h.carries.sendDone, hready, Bool.false_and]
  have hcnt : (s.next i).sendCnt = s.sendCnt := by
    rw [MemSerdes.next, hdone, hready, Bool.and_false]
    rfl
  have hbuf : (s.next i).outBuf = s.outBuf := by
    rw [show (s.next i).outBuf = s.nextOutBuf i from rfl, h.carries.nextOutBuf, hready]
    rfl
  obtain ⟨hsends, hneed⟩ := h.next_of_not_done hdone fun hstate =>
    ⟨hstate.trans h.carries.1, by rw [hbuf, hcnt]; exact h.carries.2.1, hcnt ▸ h.carries.2.2⟩
  exact ⟨hsends, hneed, hcnt⟩

theorem Sends.next_of_lt (h : s.Sends (some m)) (hready : i.narrowReqReady = true)
    (hlast : s.sendCnt + 1 < chunks c.w m.width) :
    (s.next i).Sends (some m) ∧ (s.next i).need = s.need ∧
      (s.next i).sendCnt = s.sendCnt + 1 := by
  have hdone : s.sendDone i = false := by
    rw [h.carries.sendDone, hready, Bool.true_and, beq_eq_false_iff_ne]
    omega
  have hcnt : (s.next i).sendCnt = s.sendCnt + 1 := by
    have hroom := hlast.trans_le m.chunks_le_two_pow
    rw [MemSerdes.next, hdone, hready, h.carries.narrowReqValid]
    exact Nat.mod_eq_of_lt hroom
  have hbuf : (s.next i).outBuf = s.outBuf / 2 ^ c.w := by
    rw [show (s.next i).outBuf = s.nextOutBuf i from rfl, h.carries.nextOutBuf, hready]
    rfl
  obtain ⟨hsends, hneed⟩ := h.next_of_not_done hdone fun hstate => by
    refine ⟨hstate.trans h.carries.1, ?_, hcnt ▸ hlast⟩
    rw [hbuf, hcnt, h.carries.2.1, Nat.div_div_eq_div_mul, ← pow_add, Nat.succ_mul]
  exact ⟨hsends, hneed, hcnt⟩

/-- The last chunk leaves. -/
theorem Sends.next_of_last (h : s.Sends (some m)) (hready : i.narrowReqReady = true)
    (hlast : s.sendCnt + 1 = chunks c.w m.width) :
    (s.next i).Sends none ∧ (s.next i).need = m.after s.dataSendCnt ∧
      (s.next i).sendCnt = 0 := by
  obtain ⟨hcarries, hzero, hlt⟩ := h
  have hdone : s.sendDone i = true := by
    rw [hcarries.sendDone, hready, Bool.true_and, beq_iff_eq]
    omega
  have hcnt : (s.next i).sendCnt = 0 := by rw [MemSerdes.next, hdone]; rfl
  have hstate : (s.next i).state =
      if (m.after s.dataSendCnt).isSome then .sWriteIdle else .sIdle := by
    rw [show (s.next i).state = s.nextState i from rfl, hcarries.nextState, hdone]
    rfl
  have hdata := hcarries.next_dataSendCnt (i := i)
  rw [hdone, if_pos rfl] at hdata
  obtain ⟨hafter, hlt'⟩ := m.after_cases hlt fun r hr => hzero (by
    rw [need, hcarries.1, hr, MemMsg.sendState]
    cases r.rw <;> rfl)
  rw [← hdata] at hafter hlt'
  rcases hafter with ⟨hnone, hdata'⟩ | hsome
  · rw [hnone] at hstate ⊢
    exact ⟨⟨⟨.inl hstate, hcnt⟩, fun _ => hdata', hlt'⟩, by rw [need, hstate]; rfl, hcnt⟩
  · rw [hsome] at hstate ⊢
    have hneed : (s.next i).need = some (s.next i).dataSendCnt := by rw [need, hstate]; rfl
    exact ⟨⟨⟨.inr hstate, hcnt⟩, by rw [hneed]; simp, hlt'⟩, hneed, hcnt⟩

/-- The other side takes nothing: perhaps it takes something from its wide end. -/
theorem Sends.next_of_away {cur : Option (MemMsg c)} (h : s.Sends cur)
    (hready : i.narrowReqReady = false) (hcnt : s.sendCnt = 0) :
    ∃ cur', (s.next i).Sends cur' ∧ cur.toList ++ s.sent i = cur'.toList ∧
      (s.next i).need = s.need ∧ (s.next i).sendCnt = 0 := by
  cases cur with
  | none =>
    obtain ⟨cur', hsends, hsent, hneed, hcnt'⟩ := h.next_of_none (i := i)
    exact ⟨cur', hsends, hsent, hneed, hcnt'⟩
  | some m =>
    obtain ⟨hsends, hneed, hcnt'⟩ := h.next_of_not_ready hready
    refine ⟨some m, hsends, ?_, hneed, hcnt'.trans hcnt⟩
    rw [h.carries.sent_eq_nil, List.append_nil]

end MemSerdes

/-! ### `MemDesser` gathers -/

namespace MemDesser

variable (s : MemDesser c) (i : MemDesserInput c)

/-- The message that is gathered and not passed on yet. -/
def held : Option (MemMsg c) :=
  match s.state with
  | .sCmd => some (.cmd s.wideReqCmd)
  | .sData => some (.beat s.wideReqData)
  | _ => none

/-- The memory takes what it is shown. -/
def wideReady : Bool :=
  match s.state with
  | .sCmd => i.wideReqCmdReady
  | .sData => i.wideReqDataReady
  | _ => false

/-- What the memory takes in this cycle. -/
def received : Option (MemMsg c) := if s.wideReady i then s.held else none

/-- What it is going to receive next. -/
def need : Option ℕ :=
  match s.state with
  | .sCmdRecv | .sReply => none
  | .sDataRecv => some s.dataRecvCnt
  | .sCmd => (MemMsg.cmd s.wideReqCmd).after s.dataRecvCnt
  | .sData => (MemMsg.beat s.wideReqData).after s.dataRecvCnt

/-- `n` chunks of the message on the link have arrived. -/
structure Gathers (n : ℕ) (cur : Option (MemMsg c)) : Prop where
  recv : s.narrowReqReady = true → s.recvCnt = n ∧
    ∀ m, cur = some m → ShiftedIn c.w (chunks c.w c.rbits) s.inBuf m.bits n
  away : s.narrowReqReady = false → n = 0
  hold : s.held.isSome = true → s.recvCnt = 0
  zero : s.state = .sCmdRecv ∨ s.state = .sCmd → s.dataRecvCnt = 0
  lt : s.dataRecvCnt < c.dataBeats
  inBuf : s.inBuf < 2 ^ (chunks c.w c.rbits * c.w)

variable {s i} {m : MemMsg c} {n : ℕ}

/-- What the link shows is a chunk of the oldest response. -/
theorem narrowResp_eq :
    s.narrowResp i = s.dataq.held.head?.map fun r => chunk c.w r.toBits s.recvCnt := by
  rw [narrowResp, Queue.deq_eq_head]
  exact congrArg (fun l : List (MemResp c) => l.head?.map _) (List.append_nil _)

theorem rdone_of_none (h : s.narrowResp i = none) : s.rdone i = false := by
  rw [rdone, h]
  rfl

theorem next_of_still (hresp : s.narrowResp i = none)
    (hvalid : s.narrowReqReady = true → i.narrowReqValid = false) (hready : s.wideReady i = false) :
    (s.next i).state = s.state ∧ (s.next i).recvCnt = s.recvCnt ∧
      (s.next i).inBuf = s.inBuf ∧ (s.next i).dataRecvCnt = s.dataRecvCnt := by
  have hrdone := rdone_of_none hresp
  have hmoves : s.moves i = false := by
    rw [moves, hresp]
    cases hnarrow : s.narrowReqReady with
    | false => rw [Bool.and_false]; rfl
    | true => rw [hvalid hnarrow]; rfl
  have hrecv : s.state = .sCmdRecv ∨ s.state = .sDataRecv → i.narrowReqValid = false := by
    rintro (hstate | hstate)
    all_goals exact hvalid (by rw [narrowReqReady, hstate]; rfl)
  rw [wideReady] at hready
  have hnext : s.nextState i = s.state ∧ s.chunksDone i = false ∧
      (s.state == .sData && i.wideReqDataReady) = false := by
    rw [nextState, chunksDone, hrdone, Bool.false_and, if_neg (by simp)]
    cases hstate : s.state with
    | sCmdRecv =>
      have hdone : s.adone i = false := by rw [adone, hrecv (.inl hstate)]; rfl
      rw [hdone]
      exact ⟨rfl, rfl, rfl⟩
    | sDataRecv =>
      have hdone : s.ddone i = false := by rw [ddone, hrecv (.inr hstate)]; rfl
      rw [hdone]
      exact ⟨rfl, rfl, rfl⟩
    | sCmd =>
      rw [hstate] at hready
      rw [show i.wideReqCmdReady = false from hready]
      exact ⟨rfl, rfl, rfl⟩
    | sData =>
      rw [hstate] at hready
      rw [show i.wideReqDataReady = false from hready]
      exact ⟨rfl, rfl, rfl⟩
    | sReply => exact ⟨rfl, rfl, rfl⟩
  obtain ⟨hstate, hdone, hbeat⟩ := hnext
  refine ⟨hstate, ?_, ?_, ?_⟩
  · rw [next, hdone, hmoves]
    rfl
  · rw [next, hmoves]
    rfl
  · rw [next, hrdone, hbeat]
    rfl

theorem narrowReqReady_of_recvState (h : s.state = m.recvState) : s.narrowReqReady = true := by
  rw [narrowReqReady, h]
  cases m <;> rfl

theorem next_of_chunk (h : s.state = m.recvState) (hresp : s.narrowResp i = none)
    (hvalid : i.narrowReqValid = true) :
    (s.next i).state =
        (if s.recvCnt = chunks c.w m.width - 1 then m.holdState else m.recvState) ∧
      (s.next i).recvCnt = (if s.recvCnt = chunks c.w m.width - 1 then 0
        else (s.recvCnt + 1) % 2 ^ log2Up (chunks c.w c.rbits)) ∧
      (s.next i).inBuf = shiftIn c.w (chunks c.w c.rbits) s.inBuf i.narrowReqBits ∧
      (s.next i).dataRecvCnt = s.dataRecvCnt := by
  have hrdone := rdone_of_none hresp
  have hmoves : s.moves i = true := by
    rw [moves, hvalid, narrowReqReady_of_recvState h]
    rfl
  have hdone : s.chunksDone i = decide (s.recvCnt = chunks c.w m.width - 1) ∧
      s.nextState i = if s.recvCnt = chunks c.w m.width - 1 then m.holdState else m.recvState := by
    rw [chunksDone, nextState, hrdone, h, adone, ddone, hvalid]
    cases m with
    | cmd r =>
      rw [c.last_eq c.abits_pos]
      refine ⟨rfl, ?_⟩
      by_cases hlast : s.recvCnt = chunks c.w c.abits - 1 <;>
        simp [MemMsg.recvState, MemMsg.holdState, MemMsg.width, hlast]
    | beat d =>
      rw [c.last_eq c.dbits_pos]
      refine ⟨rfl, ?_⟩
      by_cases hlast : s.recvCnt = chunks c.w c.dbits - 1 <;>
        simp [MemMsg.recvState, MemMsg.holdState, MemMsg.width, hlast]
  have hbeat : (s.state == .sData && i.wideReqDataReady) = false := by
    rw [h]
    cases m <;> rfl
  refine ⟨hdone.2, ?_, ?_, ?_⟩
  · rw [next, hdone.1, hmoves]
    by_cases hlast : s.recvCnt = chunks c.w m.width - 1 <;> simp [hlast]
  · rw [next, hmoves]
    rfl
  · rw [next, hrdone, hbeat]
    rfl

theorem next_of_ready (h : s.held = some m) (hresp : s.narrowResp i = none)
    (hready : s.wideReady i = true) (hlt : s.dataRecvCnt < c.dataBeats)
    (hzero : s.state = .sCmd → s.dataRecvCnt = 0) :
    (s.next i).need = m.after s.dataRecvCnt ∧ (s.next i).held = none ∧
      (s.next i).recvCnt = s.recvCnt ∧ (s.next i).inBuf = s.inBuf ∧
      (s.next i).dataRecvCnt < c.dataBeats ∧
      ((s.next i).state = .sCmdRecv → (s.next i).dataRecvCnt = 0) ∧
      (s.next i).state ≠ .sCmd := by
  have hrdone := rdone_of_none hresp
  have hstate : s.state = .sCmd ∨ s.state = .sData := by
    rw [held] at h
    cases hstate : s.state with
    | sCmd => exact .inl rfl
    | sData => exact .inr rfl
    | _ => rw [hstate] at h; cases h
  have hmoves : s.moves i = false := by
    rw [moves, hresp, narrowReqReady]
    rcases hstate with hstate | hstate
    all_goals rw [hstate, Bool.and_comm]; rfl
  have hdone : s.chunksDone i = false := by
    rw [chunksDone, hrdone]
    rcases hstate with hstate | hstate
    all_goals rw [hstate]; rfl
  have hrecv : (s.next i).recvCnt = s.recvCnt := by
    rw [next, hdone, hmoves]
    rfl
  have hbuf : (s.next i).inBuf = s.inBuf := by
    rw [next, hmoves]
    rfl
  rw [wideReady] at hready
  -- the state that follows waits for what the message announces
  obtain ⟨hcnt, hcmd, hnext⟩ : (s.next i).dataRecvCnt = m.count s.dataRecvCnt ∧
      (∀ r, m = .cmd r → s.dataRecvCnt = 0) ∧
      ((m.after s.dataRecvCnt).isSome = true ∧ (s.next i).state = .sDataRecv ∨
        m.after s.dataRecvCnt = none ∧
          ((s.next i).state = .sCmdRecv ∨ (s.next i).state = .sReply)) := by
    rw [show (s.next i).state = s.nextState i from rfl, nextState, hrdone, Bool.false_and,
      if_neg (by simp), next, hrdone]
    rcases hstate with hstate | hstate
    · rw [held, hstate] at h
      rw [hstate] at hready ⊢
      obtain rfl := Option.some.inj h
      refine ⟨rfl, fun _ _ => hzero hstate, ?_⟩
      rw [show i.wideReqCmdReady = true from hready, MemMsg.after]
      cases s.wideReqCmd.rw <;> simp
    · rw [held, hstate] at h
      rw [hstate] at hready ⊢
      obtain rfl := Option.some.inj h
      rw [show i.wideReqDataReady = true from hready, MemMsg.after, lastBeat]
      refine ⟨rfl, fun r hr => (by cases hr), ?_⟩
      by_cases hlast : s.dataRecvCnt = c.dataBeats - 1 <;> simp [hlast]
  obtain ⟨hafter, hlt'⟩ := m.after_cases hlt hcmd
  rw [← hcnt] at hafter hlt'
  rcases hnext with ⟨hsome, hnext⟩ | ⟨hnone, hnext⟩
  · have hneed : m.after s.dataRecvCnt = some (s.next i).dataRecvCnt := by
      refine hafter.resolve_left fun hnone => ?_
      rw [hnone.1] at hsome
      cases hsome
    exact ⟨by rw [hneed, need, hnext], by rw [held, hnext], hrecv, hbuf, hlt', by simp [hnext],
      by simp [hnext]⟩
  · have hzero' : (s.next i).dataRecvCnt = 0 := by
      rw [hnone] at hafter
      exact (hafter.resolve_right fun h => by cases h).2
    rw [need, held, hnone]
    rcases hnext with hnext | hnext
    all_goals rw [hnext]; exact ⟨rfl, rfl, hrecv, hbuf, hlt', fun _ => hzero', by simp⟩

/-- While responses are sent, the state changes only with the last chunk of the last one. -/
theorem next_of_reply (h : s.state = .sReply) :
    (s.next i).state = (if s.rdone i && s.lastBeat then .sCmdRecv else .sReply) ∧
      (s.next i).recvCnt = (if s.rdone i then 0
        else if (s.narrowResp i).isSome then (s.recvCnt + 1) % 2 ^ log2Up (chunks c.w c.rbits)
        else s.recvCnt) ∧
      (s.next i).dataRecvCnt =
        (if s.rdone i then (s.dataRecvCnt + 1) % c.dataBeats else s.dataRecvCnt) := by
  have hmoves : s.moves i = (s.narrowResp i).isSome := by
    rw [moves, narrowReqReady, h, Bool.and_comm]
    rfl
  have hdone : s.chunksDone i = s.rdone i := by
    rw [chunksDone, h, Bool.or_false]
  refine ⟨?_, ?_, ?_⟩
  · show s.nextState i = _
    rw [nextState, h]
  · rw [next, hdone, hmoves]
  · rw [next, h]
    cases s.rdone i <;> rfl

section Reply

variable {r : MemResp c} {l : List (MemResp c)}

theorem narrowResp_nil (hheld : s.dataq.held = []) : s.narrowResp i = none := by
  rw [narrowResp_eq, hheld]
  rfl

theorem narrowResp_cons (hheld : s.dataq.held = r :: l) :
    s.narrowResp i = some (chunk c.w r.toBits s.recvCnt) := by
  rw [narrowResp_eq, hheld]
  rfl

theorem rdone_cons (hheld : s.dataq.held = r :: l) :
    s.rdone i = decide (s.recvCnt = chunks c.w c.rbits - 1) := by
  rw [rdone, narrowResp_cons hheld, c.last_eq c.rbits_pos]
  rfl

theorem next_of_reply_nil (h : s.state = .sReply) (hheld : s.dataq.held = []) :
    (s.next i).state = .sReply ∧ (s.next i).recvCnt = s.recvCnt ∧
      (s.next i).dataRecvCnt = s.dataRecvCnt := by
  have hresp := narrowResp_nil (i := i) hheld
  obtain ⟨hstate, hrecv, hdata⟩ := next_of_reply (i := i) h
  rw [rdone_of_none hresp] at hstate hrecv hdata
  rw [hresp] at hrecv
  exact ⟨hstate, hrecv, hdata⟩

theorem next_of_reply_last (h : s.state = .sReply) (hheld : s.dataq.held = r :: l)
    (hlast : s.recvCnt = chunks c.w c.rbits - 1) :
    (s.next i).state = (if s.dataRecvCnt = c.dataBeats - 1 then .sCmdRecv else .sReply) ∧
      (s.next i).recvCnt = 0 ∧ (s.next i).dataRecvCnt = (s.dataRecvCnt + 1) % c.dataBeats := by
  obtain ⟨hstate, hrecv, hdata⟩ := next_of_reply (i := i) h
  rw [rdone_cons hheld, decide_eq_true hlast] at hstate hrecv hdata
  rw [lastBeat, Bool.true_and] at hstate
  exact ⟨by simpa using hstate, hrecv, hdata⟩

theorem next_of_reply_more (h : s.state = .sReply) (hheld : s.dataq.held = r :: l)
    (hlt : s.recvCnt + 1 < chunks c.w c.rbits) :
    (s.next i).state = .sReply ∧ (s.next i).recvCnt = s.recvCnt + 1 ∧
      (s.next i).dataRecvCnt = s.dataRecvCnt := by
  obtain ⟨hstate, hrecv, hdata⟩ := next_of_reply (i := i) h
  rw [rdone_cons hheld, decide_eq_false (by omega)] at hstate hrecv hdata
  rw [narrowResp_cons hheld, if_neg (by simp), Option.isSome_some, if_pos rfl,
    Nat.mod_eq_of_lt (hlt.trans_le (le_two_pow_log2Up _))] at hrecv
  exact ⟨hstate, hrecv, hdata⟩

end Reply

theorem next_inBuf_lt (hbits : i.narrowReqBits < 2 ^ c.w)
    (h : s.inBuf < 2 ^ (chunks c.w c.rbits * c.w)) :
    (s.next i).inBuf < 2 ^ (chunks c.w c.rbits * c.w) := by
  show (if s.moves i then shiftIn c.w (chunks c.w c.rbits) s.inBuf i.narrowReqBits
    else s.inBuf) < _
  split
  · exact shiftIn_lt c.w_pos (c.chunks_pos c.rbits_pos) h hbits
  · exact h

theorem Gathers.start {cur : Option (MemMsg c)} (hrecv : s.narrowReqReady = true → s.recvCnt = 0)
    (hhold : s.held.isSome = true → s.recvCnt = 0)
    (hzero : s.state = .sCmdRecv ∨ s.state = .sCmd → s.dataRecvCnt = 0)
    (hlt : s.dataRecvCnt < c.dataBeats) (hinBuf : s.inBuf < 2 ^ (chunks c.w c.rbits * c.w))
    (hn : n = 0) : s.Gathers n cur := by
  subst hn
  exact ⟨fun h => ⟨hrecv h, fun _ _ => .zero hinBuf⟩, fun _ => rfl, hhold, hzero, hlt, hinBuf⟩

end MemDesser

open MemDesser

/-! ### In step -/

/-- **The two sides are in step.** `cur` is the message that is crossing the link. -/
structure InStep (s : MemSerdes c) (d : MemDesser c) (cur : Option (MemMsg c)) : Prop where
  sends : s.Sends cur
  need : d.need = s.need
  gathers : d.Gathers s.sendCnt cur

/-- The wires between the two sides. -/
structure Wired (s : MemSerdes c) (d : MemDesser c) (i : MemSerdesInput c) (j : MemDesserInput c) :
    Prop where
  ready : i.narrowReqReady = d.narrowReqReady
  valid : j.narrowReqValid = s.narrowReqValid
  bits : j.narrowReqBits = s.narrowReqBits

variable {d : MemDesser c} {m : MemMsg c}

theorem MemDesser.held_of_ready (hready : d.narrowReqReady = true) :
    d.held = none ∧ ∀ j, d.wideReady j = false := by
  rw [narrowReqReady] at hready
  cases hstate : d.state with
  | sCmdRecv => exact ⟨by rw [held, hstate], fun j => by rw [wideReady, hstate]⟩
  | sDataRecv => exact ⟨by rw [held, hstate], fun j => by rw [wideReady, hstate]⟩
  | _ => rw [hstate] at hready; cases hready

/-- When all chunks of a message have arrived, it is held. -/
theorem MemDesser.held_of_shiftedIn (hstate : d.state = m.holdState)
    (h : ShiftedIn c.w (chunks c.w c.rbits) d.inBuf m.bits (chunks c.w m.width)) :
    d.held = some m := by
  have hread := h.read m.bits_lt_chunks
  rw [held, hstate]
  cases m with
  | cmd r =>
    show some (MemMsg.cmd d.wideReqCmd) = some (.cmd r)
    rw [wideReqCmd, show d.inBuf / 2 ^ ((chunks c.w c.rbits - chunks c.w c.abits) * c.w) =
      r.toBits from hread, MemReqCmd.fromBits_toBits]
  | beat b =>
    show some (MemMsg.beat d.wideReqData) = some (.beat b)
    rw [wideReqData, show d.inBuf / 2 ^ ((chunks c.w c.rbits - chunks c.w c.dbits) * c.w) =
      b.toNat from hread, BitVec.ofNat_toNat, BitVec.setWidth_eq]

theorem MemDesser.need_of_held (h : d.held = some m) :
    d.need = m.after d.dataRecvCnt ∧ d.narrowReqReady = false ∧ d.state ≠ .sReply := by
  rw [held] at h
  rw [need, narrowReqReady]
  cases hstate : d.state with
  | sCmd =>
    rw [hstate] at h
    cases h
    exact ⟨rfl, rfl, (by simp)⟩
  | sData =>
    rw [hstate] at h
    cases h
    exact ⟨rfl, rfl, (by simp)⟩
  | _ => rw [hstate] at h; cases h

namespace InStep

variable {s : MemSerdes c} {d : MemDesser c} {i : MemSerdesInput c} {j : MemDesserInput c}
  {cur : Option (MemMsg c)} {m : MemMsg c}

theorem state_eq (h : InStep s d (some m)) (hready : d.narrowReqReady = true) :
    d.state = m.recvState ∧ m.after d.dataRecvCnt = m.after s.dataSendCnt := by
  have hneed := h.need
  rw [MemDesser.need, MemSerdes.need, h.sends.carries.1] at hneed
  rw [narrowReqReady] at hready
  cases hstate : d.state with
  | sCmdRecv =>
    cases m with
    | cmd r => exact ⟨rfl, rfl⟩
    | beat b => rw [hstate] at hneed; cases hneed
  | sDataRecv =>
    cases m with
    | cmd r =>
      rw [hstate, MemMsg.sendState] at hneed
      cases hrw : r.rw
      all_goals rw [hrw] at hneed; cases hneed
    | beat b =>
      rw [hstate] at hneed
      exact ⟨rfl, by rw [Option.some.inj hneed]⟩
  | _ => rw [hstate] at hready; cases hready

theorem next_of_chunk (h : InStep s d (some m)) (hw : Wired s d i j)
    (hready : d.narrowReqReady = true) (hresp : d.narrowResp j = none) :
    ∃ cur, InStep (s.next i) (d.next j) cur ∧
      [m] = (d.next j).held.toList ++ cur.toList := by
  obtain ⟨hstate, hafter⟩ := h.state_eq hready
  have hvalid : j.narrowReqValid = true := hw.valid.trans h.sends.carries.narrowReqValid
  obtain ⟨hstate', hrecv', hbuf', hdata'⟩ := MemDesser.next_of_chunk hstate hresp hvalid
  obtain ⟨hcnt, hin⟩ := h.gathers.recv hready
  have hlt := h.sends.carries.2.2
  have hbits : j.narrowReqBits < 2 ^ c.w := by
    rw [hw.bits]
    exact Nat.mod_lt _ (Nat.two_pow_pos _)
  have hinBuf' := next_inBuf_lt hbits h.gathers.inBuf
  have hin' : ShiftedIn c.w (chunks c.w c.rbits) (d.next j).inBuf m.bits (s.sendCnt + 1) := by
    rw [hbuf', hw.bits, h.sends.carries.narrowReqBits]
    exact (hin m rfl).next c.w_pos (hlt.trans_le m.chunks_le)
  have hltCnt : (d.next j).dataRecvCnt < c.dataBeats := hdata' ▸ h.gathers.lt
  rw [hcnt] at hstate' hrecv'
  by_cases hlast : s.sendCnt + 1 = chunks c.w m.width
  · rw [if_pos (by omega)] at hstate' hrecv'
    obtain ⟨hsends, hneed, hcnt'⟩ := h.sends.next_of_last (hw.ready.trans hready) hlast
    have hheld' := held_of_shiftedIn hstate' (hlast ▸ hin')
    obtain ⟨hneedHeld, -, -⟩ := need_of_held hheld'
    refine ⟨none, ⟨hsends, ?_, .start (fun _ => hrecv') (fun _ => hrecv') ?_ hltCnt hinBuf' hcnt'⟩,
      ?_⟩
    · rw [hneedHeld, hneed, hdata', hafter]
    · intro hcmd
      rw [hdata']
      refine h.gathers.zero (.inl ?_)
      rw [hstate'] at hcmd
      rw [hstate]
      cases m with
      | cmd r => rfl
      | beat b => rcases hcmd with hcmd | hcmd <;> cases hcmd
    · rw [hheld']
      rfl
  · rw [if_neg (by omega), ← hstate] at hstate'
    rw [if_neg (by omega)] at hrecv'
    obtain ⟨hsends, hneed, hcnt'⟩ := h.sends.next_of_lt (hw.ready.trans hready) (by omega)
    have hready' : (d.next j).narrowReqReady = true := by
      rw [narrowReqReady, hstate']
      exact hready
    have hheld' := (held_of_ready hready').1
    have hroom : s.sendCnt + 1 < 2 ^ log2Up (chunks c.w c.rbits) := by
      have hle := m.chunks_le.trans (le_two_pow_log2Up _)
      omega
    refine ⟨some m, ⟨hsends, ?_, ?_, ?_, ?_, ?_, hltCnt, hinBuf'⟩, ?_⟩
    · rw [hneed, ← h.need, MemDesser.need, MemDesser.need, hstate', hstate]
      cases m with
      | cmd r => rfl
      | beat b => exact congrArg some hdata'
    · intro _
      refine ⟨?_, ?_⟩
      · rw [hrecv', hcnt', Nat.mod_eq_of_lt hroom]
      · rintro m' ⟨⟩
        rw [hcnt']
        exact hin'
    · rw [hready']
      simp
    · rw [hheld']
      simp
    · rw [hstate', hdata']
      exact h.gathers.zero
    · rw [hheld']
      rfl

/-- Nothing crosses the link, since `MemSerdes` has nothing to send. -/
theorem next_of_none (h : InStep s d none) (hw : Wired s d i j) (hready : d.narrowReqReady = true)
    (hresp : d.narrowResp j = none) :
    ∃ cur, InStep (s.next i) (d.next j) cur ∧
      s.sent i = (d.next j).held.toList ++ cur.toList := by
  obtain ⟨cur, hsends, hsent, hneed, hcnt'⟩ := h.sends.next_of_none (i := i)
  obtain ⟨hheld, hwide⟩ := held_of_ready hready
  have hvalid : j.narrowReqValid = false := hw.valid.trans h.sends.carries.narrowReqValid
  obtain ⟨hstate', hrecv', hbuf', hdata'⟩ :=
    next_of_still hresp (fun _ => hvalid) (hwide j)
  have hready' : (d.next j).narrowReqReady = true := by
    rw [narrowReqReady, hstate']
    exact hready
  have hheld' := (held_of_ready hready').1
  have hrecv : (d.next j).recvCnt = 0 := by
    rw [hrecv', (h.gathers.recv hready).1, h.sends.carries.2]
  refine ⟨cur, ⟨hsends, ?_, .start (fun _ => hrecv) (fun _ => hrecv) ?_ (hdata' ▸ h.gathers.lt)
    (hbuf' ▸ h.gathers.inBuf) hcnt'⟩, ?_⟩
  · rw [hneed, ← h.need, MemDesser.need, MemDesser.need, hstate', hdata']
    rw [narrowReqReady] at hready
    cases hstate : d.state with
    | sCmdRecv => rfl
    | sDataRecv => rfl
    | sReply => rfl
    | sCmd => rw [hstate] at hready; cases hready
    | sData => rw [hstate] at hready; cases hready
  · rw [hstate', hdata']
    exact h.gathers.zero
  · rw [hheld', hsent]
    rfl

/-- Nothing crosses the link, since a message is held for the memory. -/
theorem next_of_held (h : InStep s d cur) (hw : Wired s d i j) (hheld : d.held = some m)
    (hresp : d.narrowResp j = none) :
    ∃ cur', InStep (s.next i) (d.next j) cur' ∧
      m :: (cur.toList ++ s.sent i) =
        (d.received j).toList ++ (d.next j).held.toList ++ cur'.toList := by
  obtain ⟨hneedHeld, hready, hnot⟩ := need_of_held hheld
  obtain ⟨cur', hsends, hsent, hneed, hcnt'⟩ :=
    h.sends.next_of_away (hw.ready.trans hready) (h.gathers.away hready)
  have hrecv : d.recvCnt = 0 := h.gathers.hold (by rw [hheld]; rfl)
  rw [hsent]
  cases hwide : d.wideReady j with
  | false =>
    obtain ⟨hstate', hrecv', hbuf', hdata'⟩ :=
      next_of_still hresp (by rw [hready]; simp) hwide
    have hheld' : (d.next j).held = some m := by
      rw [← hheld, MemDesser.held, MemDesser.held, wideReqCmd, wideReqCmd,
        wideReqData, wideReqData, hstate', hbuf']
    obtain ⟨hneedHeld', -, -⟩ := need_of_held hheld'
    have hrecv := hrecv'.trans hrecv
    refine ⟨cur', ⟨hsends, ?_, .start (fun _ => hrecv) (fun _ => hrecv) ?_ (hdata' ▸ h.gathers.lt)
      (hbuf' ▸ h.gathers.inBuf) hcnt'⟩, ?_⟩
    · rw [hneedHeld', hdata', ← hneedHeld, h.need, hneed]
    · rw [hstate', hdata']
      exact h.gathers.zero
    · rw [MemDesser.received, hwide, hheld']
      rfl
  | true =>
    obtain ⟨hneed', hheld', hrecv', hbuf', hlt', hzero', hne'⟩ := next_of_ready hheld
      hresp hwide h.gathers.lt fun hcmd => h.gathers.zero (.inr hcmd)
    have hrecv := hrecv'.trans hrecv
    refine ⟨cur', ⟨hsends, ?_, .start (fun _ => hrecv) (fun _ => hrecv) ?_ hlt'
      (hbuf' ▸ h.gathers.inBuf) hcnt'⟩, ?_⟩
    · rw [hneed', ← hneedHeld, h.need, hneed]
    · rintro (hstate | hstate)
      · exact hzero' hstate
      · exact absurd hstate hne'
    · rw [MemDesser.received, hwide, hheld, hheld']
      rfl

/-- Nothing crosses the link towards the memory while responses come back. -/
theorem next_of_reply (h : InStep s d cur) (hw : Wired s d i j) (hstate : d.state = .sReply) :
    ∃ cur', InStep (s.next i) (d.next j) cur' ∧
      cur.toList ++ s.sent i = (d.next j).held.toList ++ cur'.toList := by
  have hready : d.narrowReqReady = false := by rw [narrowReqReady, hstate]; rfl
  have hbits : j.narrowReqBits < 2 ^ c.w := by
    rw [hw.bits]
    exact Nat.mod_lt _ (Nat.two_pow_pos _)
  have hinBuf' := next_inBuf_lt hbits h.gathers.inBuf
  obtain ⟨cur', hsends, hsent, hneed, hcnt'⟩ :=
    h.sends.next_of_away (hw.ready.trans hready) (h.gathers.away hready)
  obtain ⟨hstate', hrecv', hdata'⟩ := MemDesser.next_of_reply (i := j) hstate
  have hneed₀ : d.need = none := by rw [MemDesser.need, hstate]
  rw [hsent]
  cases hover : d.rdone j && d.lastBeat with
  | false =>
    rw [hover, if_neg (by simp)] at hstate'
    have hheld' : (d.next j).held = none := by rw [MemDesser.held, hstate']
    have hlt' : (d.next j).dataRecvCnt < c.dataBeats := by
      have hlt := h.gathers.lt
      rw [hdata']
      split
      · exact Nat.mod_lt _ (NeZero.pos _)
      · exact hlt
    refine ⟨cur', ⟨hsends, ?_, .start ?_ ?_ ?_ hlt' hinBuf' hcnt'⟩, ?_⟩
    · rw [hneed, ← h.need, hneed₀, MemDesser.need, hstate']
    · rw [narrowReqReady, hstate']
      simp
    · rw [hheld']
      simp
    · rw [hstate']
      rintro (hcmd | hcmd) <;> cases hcmd
    · rw [hheld']
      rfl
  | true =>
    rw [hover, if_pos rfl] at hstate'
    obtain ⟨hrdone, hlast⟩ := Bool.and_eq_true_iff.mp hover
    rw [hrdone, if_pos rfl] at hrecv' hdata'
    have hheld' : (d.next j).held = none := by rw [MemDesser.held, hstate']
    have hzero' : (d.next j).dataRecvCnt = 0 := by
      have hpos : 0 < c.dataBeats := NeZero.pos _
      rw [lastBeat, beq_iff_eq] at hlast
      rw [hdata', show d.dataRecvCnt + 1 = c.dataBeats by omega, Nat.mod_self]
    refine ⟨cur', ⟨hsends, ?_, .start (fun _ => hrecv') (fun _ => hrecv') (fun _ => hzero')
      (hzero' ▸ NeZero.pos _) hinBuf' hcnt'⟩, ?_⟩
    · rw [hneed, ← h.need, hneed₀, MemDesser.need, hstate']
    · rw [hheld']
      rfl

/-- **One cycle keeps the two sides in step**, and no message is lost, duplicated or reordered. -/
theorem next (h : InStep s d cur) (hw : Wired s d i j)
    (hresp : d.state ≠ .sReply → d.narrowResp j = none) :
    ∃ cur', InStep (s.next i) (d.next j) cur' ∧
      FifoStep (d.held.toList ++ cur.toList) (s.sent i) (d.received j).toList
        ((d.next j).held.toList ++ cur'.toList) := by
  cases hheld : d.held with
  | some m =>
    obtain ⟨cur', hstep, hmsgs⟩ := h.next_of_held hw hheld
      (hresp (need_of_held hheld).2.2)
    refine ⟨cur', hstep, ?_⟩
    rw [FifoStep, ← List.append_assoc, ← hmsgs]
    rfl
  | none =>
    have hreceived : d.received j = none := by rw [MemDesser.received, hheld]; exact ite_self _
    rw [hreceived]
    cases hready : d.narrowReqReady with
    | true =>
      have hne : d.state ≠ .sReply := by
        intro hstate
        rw [narrowReqReady, hstate] at hready
        cases hready
      cases cur with
      | none =>
        obtain ⟨cur', hstep, hmsgs⟩ := h.next_of_none hw hready (hresp hne)
        exact ⟨cur', hstep, hmsgs⟩
      | some m =>
        obtain ⟨cur', hstep, hmsgs⟩ := h.next_of_chunk hw hready (hresp hne)
        refine ⟨cur', hstep, ?_⟩
        rw [FifoStep, h.sends.carries.sent_eq_nil, List.append_nil]
        exact hmsgs
    | false =>
      have hstate : d.state = .sReply := by
        rw [narrowReqReady] at hready
        rw [MemDesser.held] at hheld
        cases hstate : d.state with
        | sReply => rfl
        | sCmdRecv => rw [hstate] at hready; cases hready
        | sDataRecv => rw [hstate] at hready; cases hready
        | sCmd => rw [hstate] at hheld; cases hheld
        | sData => rw [hstate] at hheld; cases hheld
      obtain ⟨cur', hstep, hmsgs⟩ := h.next_of_reply hw hstate
      exact ⟨cur', hstep, hmsgs⟩

end InStep

/-! ### Responses -/

namespace MemSerdes

variable {s : MemSerdes c} {i : MemSerdesInput c}

theorem next_of_no_resp (h : i.narrowResp = none) : (s.next i).recvCnt = s.recvCnt ∧
    (s.next i).respVal = false ∧ (s.next i).inBuf = s.inBuf := by
  have hdone : s.recvDone i = false := by rw [recvDone, h]; rfl
  refine ⟨?_, hdone, ?_⟩
  · rw [next, hdone, h]
    rfl
  · rw [next, h]

theorem next_of_resp {b : ℕ} (h : i.narrowResp = some b) :
    (s.next i).recvCnt = (if s.recvCnt = chunks c.w c.rbits - 1 then 0
        else (s.recvCnt + 1) % 2 ^ log2Up (chunks c.w c.rbits)) ∧
      (s.next i).respVal = decide (s.recvCnt = chunks c.w c.rbits - 1) ∧
      (s.next i).inBuf = shiftIn c.w (chunks c.w c.rbits) s.inBuf b := by
  have hdone : s.recvDone i = decide (s.recvCnt = chunks c.w c.rbits - 1) := by
    rw [recvDone, h, c.last_eq c.rbits_pos]
    rfl
  refine ⟨?_, hdone, ?_⟩
  · rw [next, hdone, h]
    by_cases hlast : s.recvCnt = chunks c.w c.rbits - 1 <;> simp [hlast]
  · rw [next, h]

end MemSerdes

namespace MemDesser

variable (d : MemDesser c) (j : MemDesserInput c)

/-- A read command is taken by the memory. -/
def newReads : ℕ :=
  if d.state = .sCmd ∧ j.wideReqCmdReady = true ∧ d.wideReqCmd.rw = false then 1 else 0

theorem newReads_of_ne (h : d.state ≠ .sCmd) : d.newReads j = 0 := if_neg fun hcmd => h hcmd.1

/-- The memory sends no beat that it was not asked for. -/
def Asked (came reads : ℕ) : Prop :=
  j.wideResp.isSome = true → came < c.dataBeats * (reads + d.newReads j)

variable {d j}

theorem next_state_of_ne (h : d.state ≠ .sReply) (hresp : d.narrowResp j = none) :
    (d.next j).state = .sReply ↔ d.newReads j = 1 := by
  show d.nextState j = _ ↔ _
  rw [nextState, rdone_of_none hresp, Bool.false_and, if_neg (by simp), newReads]
  cases hstate : d.state with
  | sCmdRecv => cases d.adone j <;> simp
  | sCmd => cases j.wideReqCmdReady <;> cases d.wideReqCmd.rw <;> simp
  | sDataRecv => cases d.ddone j <;> simp
  | sData => cases j.wideReqDataReady <;> cases d.lastBeat <;> simp
  | sReply => exact absurd hstate h

theorem next_of_newReads {n : ℕ} {cur : Option (MemMsg c)} (h : d.newReads j = 1)
    (hresp : d.narrowResp j = none) (hg : d.Gathers n cur) :
    (d.next j).recvCnt = 0 ∧ (d.next j).dataRecvCnt = 0 := by
  have hcmd : d.state = .sCmd ∧ j.wideReqCmdReady = true ∧ d.wideReqCmd.rw = false := by
    rw [newReads] at h
    by_contra hno
    rw [if_neg hno] at h
    cases h
  obtain ⟨hstate, hready, -⟩ := hcmd
  have hheld : d.held = some (.cmd d.wideReqCmd) := by rw [held, hstate]
  have hwide : d.wideReady j = true := by rw [wideReady, hstate]; exact hready
  obtain ⟨-, -, hrecv, -, -, -, -⟩ := next_of_ready hheld hresp hwide hg.lt fun hcmd =>
    hg.zero (.inr hcmd)
  refine ⟨hrecv.trans (hg.hold (by rw [hheld]; rfl)), ?_⟩
  rw [next, rdone_of_none hresp, hstate]
  exact hg.zero (.inr hstate)

end MemDesser

/-- **The responses are in step.** `came` beats came from the memory, for `reads` reads. -/
structure Replying (s : MemSerdes c) (d : MemDesser c) (came reads : ℕ) : Prop where
  inBuf : s.inBuf < 2 ^ (chunks c.w c.rbits * c.w)
  le : came ≤ c.dataBeats * reads
  idle : d.state ≠ .sReply →
    d.dataq.held = [] ∧ s.recvCnt = 0 ∧ came = c.dataBeats * reads
  cnt : d.state = .sReply → s.recvCnt = d.recvCnt ∧ d.recvCnt < chunks c.w c.rbits ∧
    (d.dataq.held = [] → d.recvCnt = 0)
  arrived : d.state = .sReply → ∀ r l, d.dataq.held = r :: l →
    ShiftedIn c.w (chunks c.w c.rbits) s.inBuf r.toBits d.recvCnt
  owed : d.state = .sReply →
    came + c.dataBeats = c.dataBeats * reads + d.dataRecvCnt + d.dataq.held.length

namespace Replying

variable {s : MemSerdes c} {d : MemDesser c} {i : MemSerdesInput c} {j : MemDesserInput c}
  {came reads : ℕ}

variable {n : ℕ} {cur : Option (MemMsg c)} (h : Replying s d came reads)
  (hasked : d.Asked j came reads)

include h hasked

theorem entered_eq : d.dataq.entered false (d.dataqInput j) = j.wideResp.toList := by
  rw [Queue.entered, Queue.enqReady_eq]
  show (if (decide _ || false && _) = true then j.wideResp.toList else []) = _
  cases hresp : j.wideResp with
  | none => exact ite_self _
  | some r =>
    have hlt := hasked (by rw [hresp]; rfl)
    refine if_pos ?_
    rw [Bool.false_and, Bool.or_false, decide_eq_true_eq]
    by_cases hstate : d.state = .sReply
    · have howed := h.owed hstate
      rw [d.newReads_of_ne j (by rw [hstate]; decide), Nat.add_zero] at hlt
      omega
    · rw [(h.idle hstate).1]
      exact NeZero.pos _

theorem step_queue : d.dataq.held ++ j.wideResp.toList =
    (if d.recvCnt = chunks c.w c.rbits - 1 then d.dataq.held.head?.toList else []) ++
      (d.next j).dataq.held := by
  have hstep : FifoStep d.dataq.held (d.dataq.entered false (d.dataqInput j))
      (d.dataq.left false (d.dataqInput j)) (d.next j).dataq.held := Queue.step
  have hhead : d.dataq.deq false (d.dataqInput j) = d.dataq.held.head? := by
    rw [Queue.deq_eq_head]
    exact congrArg _ (List.append_nil _)
  rw [FifoStep, h.entered_eq hasked, Queue.left, hhead, dataqInput,
    c.last_eq c.rbits_pos] at hstep
  rw [hstep]
  by_cases hlast : d.recvCnt = chunks c.w c.rbits - 1 <;> simp [hlast]

theorem step_queue_nil (hempty : d.dataq.held = []) :
    j.wideResp.toList = (d.next j).dataq.held := by
  have hqueue := h.step_queue hasked
  rwa [hempty, List.head?_nil, Option.toList_none, ite_self, List.nil_append,
    List.nil_append] at hqueue

omit hasked in
theorem narrowResp_eq_none (hstate : d.state ≠ .sReply) : d.narrowResp j = none :=
  narrowResp_nil (h.idle hstate).1

/-- The responses after a cycle: still in step, and each is where it belongs. -/
structure Keeps (s : MemSerdes c) (d : MemDesser c) (i : MemSerdesInput c) (j : MemDesserInput c)
    (came reads : ℕ) : Prop where
  next : Replying (s.next i) (d.next j) came reads
  queue : d.dataq.held ++ j.wideResp.toList =
    (s.next i).wideResp.toList ++ (d.next j).dataq.held

theorem came_le (hstate : d.state = .sReply) :
    came + j.wideResp.toList.length ≤ c.dataBeats * reads := by
  rw [MemDesser.Asked, d.newReads_of_ne j (by rw [hstate]; simp), Nat.add_zero] at hasked
  cases hwide : j.wideResp with
  | none => exact h.le
  | some r => exact hasked (by rw [hwide]; rfl)

variable (hwire : i.narrowResp = d.narrowResp j)

include hwire

theorem next_of_idle (hg : d.Gathers n cur) (hstate : d.state ≠ .sReply) :
    Keeps s d i j (came + j.wideResp.toList.length) (reads + d.newReads j) := by
  have hresp := h.narrowResp_eq_none (j := j) hstate
  obtain ⟨hempty, hcnt, hcame⟩ := h.idle hstate
  obtain ⟨hcnt', hval', hbuf'⟩ := next_of_no_resp (s := s) (hwire.trans hresp)
  have hqueue := h.step_queue_nil hasked hempty
  have hpending : (s.next i).wideResp = none := by rw [wideResp, hval']; rfl
  have hnew := next_state_of_ne hstate hresp
  have hle : came + j.wideResp.toList.length ≤ c.dataBeats * (reads + d.newReads j) := by
    cases hwide : j.wideResp with
    | none =>
      rw [hcame]
      exact Nat.mul_le_mul_left _ (Nat.le_add_right ..)
    | some r => exact hasked (by rw [hwide]; rfl)
  refine ⟨⟨hbuf' ▸ h.inBuf, hle, ?_, ?_, ?_, ?_⟩, ?_⟩
  · intro hne
    have hzero : d.newReads j = 0 := by
      have hone : d.newReads j ≠ 1 := fun hone => hne (hnew.mpr hone)
      rw [MemDesser.newReads] at hone ⊢
      split at hone
      · exact absurd rfl hone
      · exact if_neg ‹_›
    rw [hzero, Nat.add_zero] at hle ⊢
    have hnil : j.wideResp.toList = [] := List.length_eq_zero_iff.mp (by omega)
    rw [hnil] at hqueue ⊢
    exact ⟨hqueue.symm, hcnt'.trans hcnt, hcame⟩
  · intro hreply
    obtain ⟨hrecv', -⟩ := next_of_newReads (hnew.mp hreply) hresp hg
    rw [hcnt', hcnt, hrecv']
    exact ⟨rfl, c.chunks_pos c.rbits_pos, fun _ => rfl⟩
  · intro hreply r l _
    obtain ⟨hrecv', -⟩ := next_of_newReads (hnew.mp hreply) hresp hg
    rw [hrecv', hbuf']
    exact .zero h.inBuf
  · intro hreply
    have hone := hnew.mp hreply
    obtain ⟨-, hdata'⟩ := next_of_newReads hone hresp hg
    rw [hone, hdata', ← hqueue, hcame, Nat.mul_succ]
    omega
  · rw [hempty, hpending, hqueue]
    rfl

theorem next_of_reply_nil (hstate : d.state = .sReply) (hheld : d.dataq.held = []) :
    Keeps s d i j (came + j.wideResp.toList.length) (reads + d.newReads j) := by
  have hle := h.came_le hasked hstate
  rw [d.newReads_of_ne j (by rw [hstate]; simp), Nat.add_zero]
  obtain ⟨hstate', hrecv', hdata'⟩ := MemDesser.next_of_reply_nil (i := j) hstate hheld
  obtain ⟨hcnt, -, hzero⟩ := h.cnt hstate
  have howed := h.owed hstate
  obtain ⟨hcnt', hval', hbuf'⟩ := next_of_no_resp (s := s) (hwire.trans (narrowResp_nil hheld))
  have hpending : (s.next i).wideResp = none := by rw [wideResp, hval']; rfl
  have hqueue := h.step_queue_nil hasked hheld
  have hzero := hzero hheld
  rw [hzero] at hrecv'
  refine ⟨⟨hbuf' ▸ h.inBuf, hle, fun hne => absurd hstate' hne, ?_, ?_, ?_⟩, ?_⟩
  · intro _
    rw [hcnt', hcnt, hzero, hrecv']
    exact ⟨rfl, c.chunks_pos c.rbits_pos, fun _ => rfl⟩
  · intro _ r l _
    rw [hrecv', hbuf']
    exact .zero h.inBuf
  · intro _
    rw [hheld, List.length_nil] at howed
    rw [hdata', ← hqueue]
    omega
  · rw [hheld, hpending, hqueue]
    rfl

section Chunk

variable {r : MemResp c} {l : List (MemResp c)}

omit hasked in
theorem shiftedIn_next (hstate : d.state = .sReply) (hheld : d.dataq.held = r :: l) :
    ShiftedIn c.w (chunks c.w c.rbits) (s.next i).inBuf r.toBits (d.recvCnt + 1) := by
  obtain ⟨-, -, hbuf'⟩ :=
    next_of_resp (s := s) (hwire.trans (narrowResp_cons hheld))
  rw [hbuf']
  exact (h.arrived hstate r l hheld).next c.w_pos (h.cnt hstate).2.1

theorem next_of_reply_last (hstate : d.state = .sReply) (hg : d.Gathers n cur)
    (hheld : d.dataq.held = r :: l) (hlast : d.recvCnt = chunks c.w c.rbits - 1) :
    Keeps s d i j (came + j.wideResp.toList.length) (reads + d.newReads j) := by
  have hqueue := h.step_queue hasked
  have hle := h.came_le hasked hstate
  rw [d.newReads_of_ne j (by rw [hstate]; simp), Nat.add_zero]
  obtain ⟨hstate', hrecv', hdata'⟩ := MemDesser.next_of_reply_last (i := j) hstate hheld hlast
  obtain ⟨hcnt, hlt, -⟩ := h.cnt hstate
  have howed := h.owed hstate
  obtain ⟨hcnt', hval', -⟩ :=
    next_of_resp (s := s) (hwire.trans (narrowResp_cons hheld))
  have hin' := h.shiftedIn_next hwire hstate hheld
  rw [hcnt] at hcnt' hval'
  rw [hheld] at hqueue
  rw [if_pos hlast] at hcnt' hqueue
  rw [decide_eq_true hlast] at hval'
  have hqueue' : l ++ j.wideResp.toList = (d.next j).dataq.held := by simpa using hqueue
  have hpending : (s.next i).wideResp = some r := by
    have hall : d.recvCnt + 1 = chunks c.w c.rbits := by omega
    have hbits : r.toBits < 2 ^ ((d.recvCnt + 1) * c.w) := by
      rw [hall]
      exact r.toBits_lt.trans_le (Nat.pow_le_pow_right two_pos (le_chunks c.w_pos))
    have hread := hin'.read hbits
    rw [hall, Nat.sub_self, Nat.zero_mul, pow_zero, Nat.div_one] at hread
    rw [wideResp, hval', hread, MemResp.fromBits_toBits]
    rfl
  have hbeats : 0 < c.dataBeats := NeZero.pos _
  have hdlt := hg.lt
  rw [hheld, List.length_cons] at howed
  have hheld' : (d.next j).dataq.held.length = l.length + j.wideResp.toList.length := by
    rw [← hqueue', List.length_append]
  refine ⟨⟨hin'.lt, hle, ?_, ?_, ?_, ?_⟩, ?_⟩
  · intro hne
    have hbeat : d.dataRecvCnt = c.dataBeats - 1 := by
      by_contra hbeat
      exact hne (hstate'.trans (if_neg hbeat))
    exact ⟨List.length_eq_zero_iff.mp (by omega), hcnt', by omega⟩
  · intro _
    rw [hcnt', hrecv']
    exact ⟨rfl, c.chunks_pos c.rbits_pos, fun _ => rfl⟩
  · intro _ r' l' _
    rw [hrecv']
    exact .zero hin'.lt
  · intro hreply
    have hbeat : d.dataRecvCnt ≠ c.dataBeats - 1 := by
      intro hbeat
      rw [if_pos hbeat, hreply] at hstate'
      cases hstate'
    rw [hdata', Nat.mod_eq_of_lt (by omega), hheld']
    omega
  · rw [hheld, hpending, ← hqueue']
    rfl

/-- A chunk of a response is sent, and it is not the last. -/
theorem next_of_reply_more (hstate : d.state = .sReply) (hheld : d.dataq.held = r :: l)
    (hlast : d.recvCnt ≠ chunks c.w c.rbits - 1) :
    Keeps s d i j (came + j.wideResp.toList.length) (reads + d.newReads j) := by
  have hqueue := h.step_queue hasked
  have hle := h.came_le hasked hstate
  rw [d.newReads_of_ne j (by rw [hstate]; simp), Nat.add_zero]
  obtain ⟨hcnt, hlt, -⟩ := h.cnt hstate
  have hlt' : d.recvCnt + 1 < chunks c.w c.rbits := by omega
  obtain ⟨hstate', hrecv', hdata'⟩ := MemDesser.next_of_reply_more (i := j) hstate hheld hlt'
  have howed := h.owed hstate
  obtain ⟨hcnt', hval', -⟩ := next_of_resp (s := s) (hwire.trans (narrowResp_cons hheld))
  have hin' := h.shiftedIn_next hwire hstate hheld
  rw [hcnt] at hcnt' hval'
  rw [hheld] at hqueue
  rw [if_neg hlast, Nat.mod_eq_of_lt (hlt'.trans_le (le_two_pow_log2Up _))] at hcnt'
  rw [if_neg hlast] at hqueue
  rw [decide_eq_false hlast] at hval'
  have hpending : (s.next i).wideResp = none := by rw [wideResp, hval']; rfl
  refine ⟨⟨hin'.lt, hle, fun hne => absurd hstate' hne, ?_, ?_, ?_⟩, ?_⟩
  · intro _
    refine ⟨hcnt'.trans hrecv'.symm, by rw [hrecv']; omega, fun hnil => ?_⟩
    rw [List.nil_append, hnil] at hqueue
    cases hqueue
  · intro _ r' l' hheld'
    rw [List.nil_append, hheld'] at hqueue
    rw [hrecv', ← (List.cons.inj hqueue).1]
    exact hin'
  · intro _
    rw [hheld, List.length_cons] at howed
    rw [hdata', ← List.nil_append (d.next j).dataq.held, ← hqueue, List.length_append,
      List.length_cons]
    omega
  · rw [hheld, hpending]
    exact hqueue

end Chunk

theorem next_of_reply (hg : d.Gathers n cur) (hstate : d.state = .sReply) :
    Keeps s d i j (came + j.wideResp.toList.length) (reads + d.newReads j) := by
  cases hheld : d.dataq.held with
  | nil => exact h.next_of_reply_nil hasked hwire hstate hheld
  | cons r l =>
    by_cases hlast : d.recvCnt = chunks c.w c.rbits - 1
    · exact h.next_of_reply_last hasked hwire hstate hg hheld hlast
    · exact h.next_of_reply_more hasked hwire hstate hheld hlast

/-- **One cycle keeps the responses in step**, and no response is lost, duplicated or reordered. -/
theorem next (hg : d.Gathers n cur) :
    Keeps s d i j (came + j.wideResp.toList.length) (reads + d.newReads j) := by
  by_cases hstate : d.state = .sReply
  · exact h.next_of_reply hasked hwire hg hstate
  · exact h.next_of_idle hasked hwire hg hstate

end Replying

/-! ### Progress -/

/-- The link waits for the memory. -/
def MemDesser.Stalled (d : MemDesser c) (j : MemDesserInput c) : Prop :=
  match d.state with
  | .sCmd => j.wideReqCmdReady = false
  | .sData => j.wideReqDataReady = false
  | .sReply => d.dataq.held = []
  | _ => False

/-- How many chunks are to cross the link before the next message is shown to the memory. -/
def distance (s : MemSerdes c) (d : MemDesser c) : ℕ :=
  match d.state with
  | .sCmd | .sData => 0
  | .sCmdRecv => chunks c.w c.abits - s.sendCnt
  | .sDataRecv => chunks c.w c.dbits - s.sendCnt
  | .sReply =>
    (c.dataBeats - d.dataRecvCnt) * chunks c.w c.rbits + chunks c.w c.abits - d.recvCnt

namespace InStep

variable {s : MemSerdes c} {d : MemDesser c} {i : MemSerdesInput c} {j : MemDesserInput c}
  {cur : Option (MemMsg c)} {m : MemMsg c} {came reads : ℕ}

theorem distance_of_chunk (h : InStep s d (some m)) (hw : Wired s d i j)
    (hready : d.narrowReqReady = true) (hresp : d.narrowResp j = none) :
    distance (s.next i) (d.next j) < distance s d := by
  obtain ⟨hstate, -⟩ := h.state_eq hready
  have hvalid : j.narrowReqValid = true := hw.valid.trans h.sends.carries.narrowReqValid
  obtain ⟨hstate', -, -, -⟩ := MemDesser.next_of_chunk hstate hresp hvalid
  have hlt := h.sends.carries.2.2
  have hdist : distance s d = chunks c.w m.width - s.sendCnt := by
    rw [distance, hstate]
    cases m <;> rfl
  rw [(h.gathers.recv hready).1] at hstate'
  rw [hdist, distance, hstate']
  by_cases hlast : s.sendCnt + 1 = chunks c.w m.width
  · rw [if_pos (by omega)]
    cases m
    all_goals exact Nat.sub_pos_of_lt hlt
  · rw [if_neg (by omega)]
    obtain ⟨-, -, hcnt'⟩ := h.sends.next_of_lt (hw.ready.trans hready) (by omega)
    cases m
    all_goals
      show _ - (s.next i).sendCnt < _
      rw [hcnt']
      simp only [MemMsg.width] at hlt ⊢
      omega

/-- A chunk of a response crosses the link, or nothing does. -/
theorem distance_of_reply (h : InStep s d cur) (hw : Wired s d i j)
    (hr : Replying s d came reads) (hstate : d.state = .sReply) :
    distance (s.next i) (d.next j) ≤ distance s d ∧
      (d.dataq.held ≠ [] → distance (s.next i) (d.next j) < distance s d) := by
  obtain ⟨-, hlt, -⟩ := hr.cnt hstate
  have hdlt := h.gathers.lt
  have hready : d.narrowReqReady = false := by rw [narrowReqReady, hstate]; rfl
  obtain ⟨-, -, -, -, hcnt'⟩ :=
    h.sends.next_of_away (hw.ready.trans hready) (h.gathers.away hready)
  obtain ⟨k, hk⟩ : ∃ k, c.dataBeats - d.dataRecvCnt = k + 1 :=
    ⟨c.dataBeats - d.dataRecvCnt - 1, by omega⟩
  have hdist : distance s d =
      k * chunks c.w c.rbits + chunks c.w c.rbits + chunks c.w c.abits - d.recvCnt := by
    rw [distance, hstate]
    show (c.dataBeats - d.dataRecvCnt) * _ + _ - _ = _
    rw [hk, Nat.succ_mul]
  have hdist' : (d.next j).state = .sReply → distance (s.next i) (d.next j) =
      (c.dataBeats - (d.next j).dataRecvCnt) * chunks c.w c.rbits + chunks c.w c.abits
        - (d.next j).recvCnt := fun hstate' => by rw [distance, hstate']
  cases hheld : d.dataq.held with
  | nil =>
    obtain ⟨hstate', hrecv', hdata'⟩ := MemDesser.next_of_reply_nil (i := j) hstate hheld
    refine ⟨?_, fun hne => absurd rfl hne⟩
    rw [hdist, hdist' hstate', hdata', hrecv', hk, Nat.succ_mul]
  | cons r l =>
    suffices hdec : distance (s.next i) (d.next j) < distance s d from ⟨hdec.le, fun _ => hdec⟩
    rw [hdist]
    by_cases hlast : d.recvCnt = chunks c.w c.rbits - 1
    · obtain ⟨hstate', hrecv', hdata'⟩ :=
        MemDesser.next_of_reply_last (i := j) hstate hheld hlast
      by_cases hbeat : d.dataRecvCnt = c.dataBeats - 1
      · rw [if_pos hbeat] at hstate'
        rw [distance, hstate']
        show chunks c.w c.abits - (s.next i).sendCnt < _
        rw [hcnt']
        omega
      · rw [if_neg hbeat] at hstate'
        rw [hdist' hstate', hdata', Nat.mod_eq_of_lt (by omega), hrecv',
          show c.dataBeats - (d.dataRecvCnt + 1) = k by omega]
        omega
    · obtain ⟨hstate', hrecv', hdata'⟩ :=
        MemDesser.next_of_reply_more (i := j) hstate hheld (by omega)
      rw [hdist' hstate', hdata', hrecv', hk, Nat.succ_mul]
      omega

/-- **Progress.** A message is shown to the memory and taken, or the next one comes closer; only
the memory can make it wait. -/
theorem progress (h : InStep s d cur) (hw : Wired s d i j) (hr : Replying s d came reads) :
    (d.received j).isSome = true ∨ distance (s.next i) (d.next j) ≤ distance s d ∧
      (¬ d.Stalled j → d.held.toList ++ cur.toList ≠ [] ∨ d.dataq.held ≠ [] →
        distance (s.next i) (d.next j) < distance s d) := by
  cases hheld : d.held with
  | some m =>
    obtain ⟨-, hready, hne⟩ := need_of_held hheld
    have hresp := hr.narrowResp_eq_none (j := j) hne
    cases hwide : d.wideReady j with
    | true => exact .inl (by rw [MemDesser.received, hwide, hheld]; rfl)
    | false =>
      obtain ⟨hstate', -, -, -⟩ := next_of_still hresp (by rw [hready]; simp) hwide
      refine .inr ?_
      rw [MemDesser.held] at hheld
      rw [MemDesser.wideReady] at hwide
      rw [distance, distance, hstate', MemDesser.Stalled]
      cases hstate : d.state with
      | sCmd =>
        rw [hstate] at hwide
        exact ⟨Nat.le_refl _, fun hno => absurd hwide hno⟩
      | sData =>
        rw [hstate] at hwide
        exact ⟨Nat.le_refl _, fun hno => absurd hwide hno⟩
      | _ => rw [hstate] at hheld; cases hheld
  | none =>
    refine .inr ?_
    by_cases hreply : d.state = .sReply
    · obtain ⟨hle, hlt⟩ := h.distance_of_reply hw hr hreply
      refine ⟨hle, fun hno _ => hlt ?_⟩
      rwa [MemDesser.Stalled, hreply] at hno
    · have hresp := hr.narrowResp_eq_none (j := j) hreply
      have hready : d.narrowReqReady = true := by
        rw [MemDesser.held] at hheld
        rw [narrowReqReady]
        cases hstate : d.state with
        | sCmdRecv => rfl
        | sDataRecv => rfl
        | sReply => exact absurd hstate hreply
        | sCmd => rw [hstate] at hheld; cases hheld
        | sData => rw [hstate] at hheld; cases hheld
      cases cur with
      | some m =>
        have hlt := h.distance_of_chunk hw hready hresp
        exact ⟨hlt.le, fun _ _ => hlt⟩
      | none =>
        have hvalid : j.narrowReqValid = false := hw.valid.trans h.sends.carries.narrowReqValid
        obtain ⟨hstate', -, -, -⟩ := next_of_still hresp (fun _ => hvalid)
          ((held_of_ready hready).2 j)
        obtain ⟨-, -, -, -, hcnt'⟩ := h.sends.next_of_none (i := i)
        refine ⟨?_, ?_⟩
        · rw [distance, distance, hstate', hcnt', h.sends.carries.2]
          cases hstate : d.state with
          | sReply => exact absurd hstate hreply
          | _ => exact Nat.le_refl _
        · rintro - (hflight | hqueue)
          · exact absurd rfl hflight
          · exact absurd (hr.idle hreply).1 hqueue

end InStep

/-! ### Runs -/

/-- What happened so far: the messages that were taken and passed on, the responses that came and
were delivered, and the reads among the messages that were passed on. -/
structure LinkLog (c : MemSerdesConf) where
  requests : FifoLog (MemMsg c)
  responses : FifoLog (MemResp c)
  reads : ℕ

namespace MemLink

variable (s : MemLink c) (i : MemLinkInput c) (log : LinkLog c)

/-- The log goes on. -/
def logNext : LinkLog c where
  requests := log.requests.note (s.ser.sent (s.serInput i))
    (s.des.received (s.desInput i)).toList
  responses := log.responses.note (s.des.dataq.entered false (s.des.dataqInput (s.desInput i)))
    (if i.respReady then s.ser.wideResp.toList else [])
  reads := log.reads + s.des.newReads (s.desInput i)

/-- The memory sends no beat that it was not asked for, and the other side is ready for a response
that is shown. -/
structure Ok : Prop where
  asked : s.des.Asked (s.desInput i) log.responses.entered.length log.reads
  respReady : s.ser.wideResp.isSome = true → i.respReady = true

/-- All runs. -/
def allRuns (c : MemSerdesConf) : Machine (MemLink c × LinkLog c) (MemLinkInput c) :=
  (Machine.clocked IsReset next).observe ⟨⟨[], []⟩, ⟨[], []⟩, 0⟩ logNext

def machine (c : MemSerdesConf) : Machine (MemLink c × LinkLog c) (MemLinkInput c) :=
  (allRuns c).restrict fun x i => x.1.Ok i x.2

variable {s i log}

theorem wired : Wired s.ser s.des (s.serInput i) (s.desInput i) := ⟨rfl, rfl, rfl⟩

/-- **The invariant.** -/
structure Inv (s : MemLink c) (log : LinkLog c) (cur : Option (MemMsg c)) : Prop where
  inStep : InStep s.ser s.des cur
  replying : Replying s.ser s.des log.responses.entered.length log.reads
  requests : log.requests.Conserves (s.des.held.toList ++ cur.toList)
  responses : log.responses.Conserves (s.ser.wideResp.toList ++ s.des.dataq.held)

theorem Inv.next {cur : Option (MemMsg c)} (h : Inv s log cur) (hok : s.Ok i log) :
    ∃ cur', Inv (s.next i) (s.logNext i log) cur' := by
  obtain ⟨cur', hstep, hrequests⟩ := h.inStep.next (wired (i := i)) h.replying.narrowResp_eq_none
  obtain ⟨hreplying, hqueue⟩ := h.replying.next (i := s.serInput i) hok.asked rfl h.inStep.gathers
  have hentered := h.replying.entered_eq hok.asked
  have hleft : (if i.respReady then s.ser.wideResp.toList else []) = s.ser.wideResp.toList := by
    cases hresp : s.ser.wideResp with
    | none => exact ite_self _
    | some r => exact if_pos (hok.respReady (by rw [hresp]; rfl))
  refine ⟨cur', hstep, ?_, h.requests.note hrequests, ?_⟩
  · show Replying _ _ (log.responses.entered ++ _).length _
    rw [List.length_append, hentered]
    exact hreplying
  · rw [logNext, hentered, hleft]
    refine h.responses.note ?_
    rw [FifoStep, List.append_assoc]
    exact congrArg _ hqueue

theorem IsReset.inv (h : s.IsReset) : Inv s ⟨⟨[], []⟩, ⟨[], []⟩, 0⟩ none := by
  have hneed : s.ser.need = none := by rw [MemSerdes.need, h.ser.state]
  have hready : s.des.narrowReqReady = true := by
    rw [narrowReqReady, h.des.state]
    rfl
  have hne : s.des.state ≠ .sReply := by rw [h.des.state]; simp
  have hheld := (held_of_ready hready).1
  have hresp : s.ser.wideResp = none := by rw [wideResp, h.ser.respVal]; rfl
  refine ⟨⟨⟨⟨.inl h.ser.state, h.ser.sendCnt⟩, fun _ => h.ser.dataSendCnt, ?_⟩, ?_, ?_⟩, ?_, ?_, ?_⟩
  · rw [h.ser.dataSendCnt]
    exact NeZero.pos _
  · rw [hneed, MemDesser.need, h.des.state]
  · exact .start (fun _ => h.des.recvCnt) (fun _ => h.des.recvCnt) (fun _ => h.des.dataRecvCnt)
      (h.des.dataRecvCnt ▸ NeZero.pos _) h.des.inBuf h.ser.sendCnt
  · exact ⟨h.ser.inBuf, Nat.le_refl _, fun _ => ⟨h.des.dataq.held, h.ser.recvCnt, rfl⟩,
      fun hreply => absurd hreply hne, fun hreply => absurd hreply hne,
      fun hreply => absurd hreply hne⟩
  · rw [hheld]
    rfl
  · rw [hresp, h.des.dataq.held]
    rfl

theorem reachable_inv (h : (machine c).Reachable (s, log)) : ∃ cur, Inv s log cur := by
  refine Machine.invariant (I := fun x : MemLink c × LinkLog c => ∃ cur, Inv x.1 x.2 cur) ?_ ?_
    (s, log) h
  · rintro ⟨s, log⟩ ⟨hs, rfl⟩
    exact ⟨none, IsReset.inv hs⟩
  · rintro ⟨s, log⟩ i ⟨s', log'⟩ _ ⟨cur, hinv⟩ ⟨hok, rfl, rfl⟩
    exact hinv.next hok

/-- **The link is transparent.** In every run in which the memory sends no beat that it was not
asked for and the other side takes the responses when they are shown, the memory has received the
commands and beats that were taken, in order, up to at most two that are on their way, and the
responses were delivered in the order in which they came, up to those that are on their way. As
long as something is on its way, each cycle either passes a message on or brings the next one
closer, unless the link waits for the memory; and it waits for a response only if one is owed. -/
theorem transparent (c : MemSerdesConf) :
    (∀ s log, (machine c).Reachable (s, log) →
      (∃ flight, log.requests.entered = log.requests.left ++ flight ∧ flight.length ≤ 2) ∧
      log.responses.entered = log.responses.left ++ (s.ser.wideResp.toList ++ s.des.dataq.held)) ∧
    ∀ s log i, (machine c).Reachable (s, log) → s.Ok i log →
      ((s.des.received (s.desInput i)).isSome = true ∨
        distance (s.next i).ser (s.next i).des ≤ distance s.ser s.des ∧
        (¬ s.des.Stalled (s.desInput i) →
          log.requests.entered ≠ log.requests.left ∨ s.des.dataq.held ≠ [] →
          distance (s.next i).ser (s.next i).des < distance s.ser s.des)) ∧
      (s.des.state = .sReply → s.des.dataq.held = [] →
        log.responses.entered.length < c.dataBeats * log.reads) := by
  refine ⟨fun s log h => ?_, fun s log i h hok => ?_⟩
  · obtain ⟨cur, hinv⟩ := reachable_inv h
    refine ⟨⟨_, hinv.requests, ?_⟩, hinv.responses⟩
    rw [List.length_append]
    have hheld : s.des.held.toList.length ≤ 1 := by cases s.des.held <;> simp
    have hcur : cur.toList.length ≤ 1 := by cases cur <;> simp
    omega
  · obtain ⟨cur, hinv⟩ := reachable_inv h
    refine ⟨?_, fun hreply hempty => ?_⟩
    · rcases hinv.inStep.progress (wired (i := i)) hinv.replying with htaken | ⟨hle, hlt⟩
      · exact .inl htaken
      · refine .inr ⟨hle, fun hno hflight => hlt hno (hflight.imp_left fun hne hnil => hne ?_)⟩
        have hconserves := hinv.requests
        rw [hnil] at hconserves
        exact hconserves.trans (List.append_nil _)
    · have howed := hinv.replying.owed hreply
      have hlt := hinv.inStep.gathers.lt
      rw [hempty, List.length_nil] at howed
      omega

/-! ### A response that is not taken -/

theorem small_w_pos : 0 < 3 := Nat.succ_pos 2

theorem small_abits_le : 1 + 1 + 1 ≤ 3 := Nat.le_refl 3

theorem small_w_lt : 3 < 3 + 1 := Nat.lt_succ_self 3

/-- Two beats, and a link of three bits for responses of four. -/
def small : MemSerdesConf := ⟨1, 3, 1, 0, 3, small_w_pos, small_abits_le, small_w_lt⟩

def reset : MemLink small where
  ser := ⟨.sIdle, 0, 0, 0, 0, false, 0⟩
  des := ⟨.sCmdRecv, 0, 0, 0, ⟨⟨0, 0, false⟩, fun _ => ⟨0, 0⟩⟩⟩

theorem isReset_reset : reset.IsReset :=
  ⟨⟨rfl, rfl, rfl, rfl, rfl, by decide⟩, ⟨rfl, rfl, rfl, by decide, rfl⟩⟩

theorem reachable_reset : (allRuns small).Reachable (reset, ⟨⟨[], []⟩, ⟨[], []⟩, 0⟩) :=
  .init ⟨isReset_reset, rfl⟩

/-- A read, whose first beat is shown while the other side is not ready. -/
def stalledRead : List (MemLinkInput small) :=
  let idle : MemLinkInput small := ⟨none, none, true, true, true, none⟩
  [{ idle with reqCmd := some ⟨1, 1, false⟩ }, idle, idle, { idle with memResp := some ⟨5, 1⟩ },
    { idle with memResp := some ⟨2, 1⟩ }, idle, { idle with respReady := false }, idle, idle]

/-- What the run comes to. -/
def afterStalledRead : MemLink small × LinkLog small :=
  Machine.cycles next logNext stalledRead (reset, ⟨⟨[], []⟩, ⟨[], []⟩, 0⟩)

/-- **A response that is not taken when it is shown is lost.** -/
theorem stalled_response_lost : (allRuns small).Reachable afterStalledRead ∧
    afterStalledRead.2.responses.entered = [⟨5, 1⟩, ⟨2, 1⟩] ∧
    afterStalledRead.2.responses.left = [⟨2, 1⟩] ∧
    afterStalledRead.1.ser.wideResp = none ∧ afterStalledRead.1.des.dataq.held = [] :=
  ⟨Machine.reachable_cycles reachable_reset stalledRead, by decide, by decide, by decide,
    by decide⟩

end MemLink

end Serdes

end RiscvSoc
