import RiscvSoc.Lib.Queue
import RiscvSoc.Lib.ShiftReg
import RiscvSoc.Uncore.Coherence

/-!
# From acquires to memory requests

`MemIOUncachedTileLinkIOConverter` from `uncore/src/main/scala/memserdes.scala` connects the
uncached port of an agent to a memory. An acquire becomes a command and, if it has to write outer
memory, one beat after another; both go through queues of their own, so that neither waits for the
other. The beats of a response are gathered and become a grant.

The converter takes the next acquire when the command and all beats of the last one are in their
queues, and the first beat of the next response when the grant of the last one is taken. It looks at
the tag of the first beat only.
-/

namespace RiscvSoc

open Bits

/-- `TileLinkConfiguration`, `MemoryIFConfiguration` and the depth of the queues. -/
structure MemIOConf where
  AcquireType : Type
  /-- `co.needsOuterWrite`. -/
  needsOuterWrite : AcquireType → Bool
  addrBits : ℕ
  clientXactIdBits : ℕ
  memAddrBits : ℕ
  tagBits : ℕ
  dataBits : ℕ
  dataBeats : ℕ
  qDepth : ℕ
  dataBits_pos : 0 < dataBits
  dataBeats_pos : 0 < dataBeats
  qDepth_pos : 0 < qDepth

namespace MemIOConverter

variable {c : MemIOConf}

instance instNeZeroQDepth : NeZero c.qDepth := ⟨c.qDepth_pos.ne'⟩

/-! ### Messages -/

structure Acquire (c : MemIOConf) where
  aType : c.AcquireType
  clientXactId : BitVec c.clientXactIdBits
  addr : BitVec c.addrBits
  /-- `require(tlconf.dataBits == mifconf.dataBits*mifconf.dataBeats)`. -/
  data : BitVec (c.dataBeats * c.dataBits)

structure Grant (c : MemIOConf) where
  gType : ℕ
  clientXactId : BitVec c.clientXactIdBits
  masterXactId : ℕ
  data : BitVec (c.dataBeats * c.dataBits)

structure MemReqCmd (c : MemIOConf) where
  addr : BitVec c.memAddrBits
  tag : BitVec c.tagBits
  rw : Bool

structure MemResp (c : MemIOConf) where
  data : BitVec c.dataBits
  tag : BitVec c.tagBits

/-! ### Outgoing requests -/

/-- The registers of the outgoing direction, and the queues behind them. -/
structure Outgoing (c : MemIOConf) where
  memCmdQ : Queue (MemReqCmd c) c.qDepth
  memDataQ : Queue (BitVec c.dataBits) c.qDepth
  cntOut : ℕ
  activeOut : Bool
  cmdSentOut : Bool
  bufOut : ℕ
  tagOut : BitVec c.clientXactIdBits
  addrOut : BitVec c.addrBits
  hasData : Bool

/-- `io.uncached` and `io.mem`. -/
structure MemIOInput (c : MemIOConf) where
  acquire : Option (Acquire c)
  grantReady : Bool
  reqCmdReady : Bool
  reqDataReady : Bool
  resp : Option (MemResp c)

namespace Outgoing

variable (s : Outgoing c) (i : MemIOInput c)

/-- An acquire that is taken. -/
def acquired : Option (Acquire c) := if s.activeOut then none else i.acquire

/-- `mem_cmd_q.io.enq.bits` under `mem_cmd_q.io.enq.valid`. -/
def cmd : Option (MemReqCmd c) :=
  if s.activeOut && !s.cmdSentOut then
    some ⟨s.addrOut.setWidth _, s.tagOut.setWidth _, s.hasData⟩
  else none

/-- `mem_data_q.io.enq.bits` under `mem_data_q.io.enq.valid`. -/
def data : Option (BitVec c.dataBits) :=
  if s.activeOut && s.hasData && decide (s.cntOut < c.dataBeats) then
    some (BitVec.ofNat _ s.bufOut)
  else none

def cmdInput : QueueInput (MemReqCmd c) := ⟨s.cmd, i.reqCmdReady⟩

def dataInput : QueueInput (BitVec c.dataBits) := ⟨s.data, i.reqDataReady⟩

/-- `mem_cmd_q.io.enq.fire()`. -/
def cmdFire : Bool := s.memCmdQ.enqReady false (s.cmdInput i) && s.cmd.isSome

/-- `mem_data_q.io.enq.fire()`. -/
def dataFire : Bool := s.memDataQ.enqReady false (s.dataInput i) && s.data.isSome

/-- An acquire enters. -/
def accept (a : Acquire c) : Outgoing c :=
  { s with
    activeOut := true
    cmdSentOut := false
    cntOut := 0
    bufOut := a.data.toNat
    tagOut := a.clientXactId
    addrOut := a.addr
    hasData := c.needsOuterWrite a.aType }

/-- The registers while an acquire is sent on. -/
def send : Outgoing c :=
  { s with
    cmdSentOut := s.cmdSentOut || s.cmdFire i
    cntOut := if s.dataFire i then (s.cntOut + 1) % 2 ^ log2Up (c.dataBeats + 1) else s.cntOut
    bufOut := if s.dataFire i then s.bufOut / 2 ^ c.dataBits else s.bufOut
    activeOut := !(s.cmdSentOut && (!s.hasData || decide (s.cntOut = c.dataBeats))) }

/-- One cycle. -/
def next : Outgoing c :=
  let n :=
    match s.acquired i with
    | some a => s.accept a
    | none => if s.activeOut then s.send i else s
  { n with
    memCmdQ := s.memCmdQ.next false false (s.cmdInput i)
    memDataQ := s.memDataQ.next false false (s.dataInput i) }

structure IsReset : Prop where
  memCmdQ : s.memCmdQ.IsReset
  memDataQ : s.memDataQ.IsReset
  activeOut : s.activeOut = false

end Outgoing

/-! ### Incoming responses -/

/-- The registers of the incoming direction. -/
structure Incoming (c : MemIOConf) where
  cntIn : ℕ
  activeIn : Bool
  bufIn : ℕ
  tagIn : BitVec c.tagBits

namespace Incoming

variable (s : Incoming c) (i : MemIOInput c)

/-- `io.mem.resp.ready`. -/
def respReady : Bool := !s.activeIn || decide (s.cntIn < c.dataBeats)

/-- `io.uncached.grant.bits.payload` under `io.uncached.grant.valid`. -/
def grant : Option (Grant c) :=
  if s.activeIn && decide (s.cntIn = c.dataBeats) then
    some ⟨0, s.tagIn.setWidth _, 0, BitVec.ofNat _ s.bufIn⟩
  else none

/-- A beat that is taken. -/
def responded : Option (MemResp c) := if s.respReady then i.resp else none

/-- A grant that is taken. -/
def granted : Option (Grant c) := if i.grantReady then s.grant else none

/-- One cycle. -/
def next : Incoming c :=
  if s.activeIn then
    let n := if (s.granted i).isSome then { s with activeIn := false } else s
    match s.responded i with
    | some r =>
      { n with
        bufIn := shiftIn c.dataBits c.dataBeats s.bufIn r.data.toNat
        cntIn := (s.cntIn + 1) % 2 ^ log2Up (c.dataBeats + 1) }
    | none => n
  else
    match i.resp with
    | some r => ⟨1, true, r.data.toNat * 2 ^ (c.dataBits * (c.dataBeats - 1)), r.tag⟩
    | none => s

end Incoming

end MemIOConverter

open MemIOConverter

structure MemIOConverter (c : MemIOConf) where
  outgoing : Outgoing c
  incoming : Incoming c

namespace MemIOConverter

variable {c : MemIOConf}

/-- One cycle. -/
def next (s : MemIOConverter c) (i : MemIOInput c) : MemIOConverter c :=
  ⟨s.outgoing.next i, s.incoming.next i⟩

/-- Reset. The counters, the buffers and the tags have no reset value. -/
def IsReset (s : MemIOConverter c) : Prop :=
  s.outgoing.IsReset ∧ s.incoming.activeIn = false

/-! ### What is to become of the messages -/

/-- The command of an acquire. -/
def Acquire.cmd (a : Acquire c) : MemReqCmd c :=
  ⟨a.addr.setWidth _, a.clientXactId.setWidth _, c.needsOuterWrite a.aType⟩

/-- The beats of an acquire: its data, the lowest first, if it has to write outer memory. -/
def Acquire.beats (a : Acquire c) : List (BitVec c.dataBits) :=
  if c.needsOuterWrite a.aType then
    (List.range c.dataBeats).map fun k => a.data.extractLsb' (k * c.dataBits) c.dataBits
  else []

/-- What the memory answers to a read. -/
structure MemAnswer (c : MemIOConf) where
  tag : BitVec c.tagBits
  data : BitVec (c.dataBeats * c.dataBits)

/-- One beat of an answer. -/
def MemAnswer.beat (r : MemAnswer c) (k : ℕ) : MemResp c :=
  ⟨r.data.extractLsb' (k * c.dataBits) c.dataBits, r.tag⟩

def MemAnswer.grant (r : MemAnswer c) : Grant c := ⟨0, r.tag.setWidth _, 0, r.data⟩

/-- What went through the ports. -/
structure ConverterLog (c : MemIOConf) where
  acquires : List (Acquire c)
  cmds : List (MemReqCmd c)
  data : List (BitVec c.dataBits)
  resps : List (MemResp c)
  grants : List (Grant c)

/-- The log goes on. -/
def note (s : MemIOConverter c) (i : MemIOInput c) (log : ConverterLog c) : ConverterLog c where
  acquires := log.acquires ++ (s.outgoing.acquired i).toList
  cmds := log.cmds ++ s.outgoing.memCmdQ.left false (s.outgoing.cmdInput i)
  data := log.data ++ s.outgoing.memDataQ.left false (s.outgoing.dataInput i)
  resps := log.resps ++ (s.incoming.responded i).toList
  grants := log.grants ++ (s.incoming.granted i).toList

def machine (c : MemIOConf) : Machine (MemIOConverter c × ConverterLog c) (MemIOInput c) :=
  (Machine.clocked IsReset next).observe ⟨[], [], [], [], []⟩ note

/-- The memory answers one read after the other: the beats that came so far are the first ones of
its answers. -/
def Answered (answers : ℕ → MemAnswer c) (log : ConverterLog c) : Prop :=
  log.resps = (List.range log.resps.length).map fun k =>
    (answers (k / c.dataBeats)).beat (k % c.dataBeats)

/-- The grants for the answers that are complete. -/
def ConverterLog.due (log : ConverterLog c) (answers : ℕ → MemAnswer c) : List (Grant c) :=
  (List.range (log.resps.length / c.dataBeats)).map fun k => (answers k).grant

/-! ### Requests -/

namespace Outgoing

variable {s : Outgoing c} {i : MemIOInput c}

/-- The beats that are not in the queue yet. -/
def rest (s : Outgoing c) : List (BitVec c.dataBits) :=
  if s.activeOut && s.hasData then
    (firstChunks c.dataBits s.bufOut (c.dataBeats - s.cntOut)).map (BitVec.ofNat _)
  else []

theorem next_of_acquired {a : Acquire c} (h : s.acquired i = some a) :
    s.activeOut = false ∧ (s.next i).cmd = some a.cmd ∧ (s.next i).rest = a.beats := by
  have hidle : s.activeOut = false := by
    rw [← Bool.not_eq_true]
    intro hactive
    rw [acquired, if_pos hactive] at h
    cases h
  have hbeat (k : ℕ) : BitVec.ofNat c.dataBits (chunk c.dataBits a.data.toNat k) =
      a.data.extractLsb' (k * c.dataBits) c.dataBits := by
    refine BitVec.eq_of_toNat_eq ?_
    rw [BitVec.toNat_ofNat, BitVec.extractLsb'_toNat, Nat.shiftRight_eq_div_pow, chunk, Nat.mod_mod]
  have hrest : (s.accept a).rest = a.beats := by
    rw [rest, accept, Acquire.beats, Bool.true_and, Nat.sub_zero, firstChunks, List.map_map]
    exact if_congr Iff.rfl (List.map_congr_left fun k _ => hbeat k) rfl
  simp only [next, h]
  exact ⟨hidle, rfl, hrest⟩

theorem next_of_idle (h : s.acquired i = none) (hidle : s.activeOut = false) :
    (s.next i).activeOut = false := by
  simp only [next, h, hidle]
  exact hidle

theorem acquired_of_active (hactive : s.activeOut = true) : s.acquired i = none := if_pos hactive

theorem next_of_active (hactive : s.activeOut = true) :
    s.next i = { s.send i with
      memCmdQ := s.memCmdQ.next false false (s.cmdInput i)
      memDataQ := s.memDataQ.next false false (s.dataInput i) } := by
  simp only [next, acquired_of_active hactive, if_pos hactive]

/-- The counter of beats does not go beyond the last one. -/
def Counted (s : Outgoing c) : Prop := s.activeOut = true → s.cntOut ≤ c.dataBeats

theorem Counted.next (h : s.Counted) : (s.next i).Counted := by
  intro hnow
  cases hactive : s.activeOut with
  | false =>
    cases hacq : s.acquired i with
    | some a =>
      simp only [Outgoing.next, hacq]
      exact Nat.zero_le _
    | none =>
      rw [next_of_idle hacq hactive] at hnow
      cases hnow
  | true =>
    rw [next_of_active hactive]
    show (s.send i).cntOut ≤ c.dataBeats
    rw [send]
    cases hfire : s.dataFire i with
    | false => exact h hactive
    | true =>
      have hlt : s.cntOut < c.dataBeats := by
        have hsome := (Bool.and_eq_true_iff.mp hfire).2
        rw [data] at hsome
        split at hsome
        next hcond => exact of_decide_eq_true (Bool.and_eq_true_iff.mp hcond).2
        next => cases hsome
      exact (Nat.mod_le _ _).trans hlt

theorem next_cmd_of_active (hactive : s.activeOut = true) :
    (s.next i).cmd = if s.cmdFire i then none else s.cmd := by
  rw [next_of_active hactive]
  show (s.send i).cmd = _
  rw [cmd, cmd, send, hactive]
  cases s.cmdSentOut with
  | true => exact (if_neg (by simp)).trans (ite_self _).symm
  | false => cases s.cmdFire i <;> rfl

/-- The command that waits, and the queue takes it or not. -/
theorem cmd_step : FifoStep s.cmd.toList ((s.acquired i).toList.map Acquire.cmd)
    (s.memCmdQ.entered false (s.cmdInput i)) (s.next i).cmd.toList := by
  cases hacq : s.acquired i with
  | some a =>
    obtain ⟨hidle, hcmd, -⟩ := next_of_acquired hacq
    have hnone : s.cmd = none := by rw [cmd, hidle]; rfl
    rw [FifoStep, Queue.entered, cmdInput, hcmd, hnone]
    exact (congrArg (· ++ [a.cmd]) (ite_self _)).symm
  | none =>
    cases hactive : s.activeOut with
    | false =>
      have hnone : s.cmd = none := by rw [cmd, hactive]; rfl
      have hnext : (s.next i).cmd = none := by rw [cmd, next_of_idle hacq hactive]; rfl
      rw [FifoStep, Queue.entered, cmdInput, hnext, hnone]
      exact (congrArg (· ++ []) (ite_self _)).symm
    | true =>
      rw [FifoStep, next_cmd_of_active hactive, Queue.entered, cmdFire]
      cases s.memCmdQ.enqReady false (s.cmdInput i) with
      | false => simp
      | true =>
        show s.cmd.toList ++ [] = s.cmd.toList ++ _
        cases s.cmd <;> rfl

section

variable (hactive : s.activeOut = true) (hdata : s.hasData = true)

include hactive hdata

theorem data_of_active :
    s.data = if s.cntOut < c.dataBeats then some (BitVec.ofNat _ s.bufOut) else none := by
  rw [data, hactive, hdata]
  exact if_congr decide_eq_true_iff rfl rfl

theorem rest_of_active :
    s.rest = (firstChunks c.dataBits s.bufOut (c.dataBeats - s.cntOut)).map (BitVec.ofNat _) := by
  rw [rest, hactive, hdata]
  rfl

theorem rest_of_lt (hlt : s.cntOut < c.dataBeats) :
    s.rest = BitVec.ofNat _ s.bufOut ::
      (firstChunks c.dataBits (s.bufOut / 2 ^ c.dataBits) (c.dataBeats - (s.cntOut + 1))).map
        (BitVec.ofNat _) := by
  have hleft : c.dataBeats - s.cntOut = c.dataBeats - (s.cntOut + 1) + 1 := by omega
  have hbeat : BitVec.ofNat c.dataBits (s.bufOut % 2 ^ c.dataBits) = BitVec.ofNat _ s.bufOut := by
    refine BitVec.eq_of_toNat_eq ?_
    rw [BitVec.toNat_ofNat, BitVec.toNat_ofNat, Nat.mod_mod]
  rw [rest_of_active hactive hdata, hleft, firstChunks_cons, List.map_cons, hbeat]

theorem send_rest_of_lt (hlt : s.cntOut < c.dataBeats) :
    s.rest = (if s.dataFire i then s.data.toList else []) ++ (s.send i).rest := by
  have hnow : (s.send i).activeOut = true := by
    rw [send, hdata, decide_eq_false hlt.ne, Bool.not_true, Bool.or_self, Bool.and_false]
    rfl
  have hwrap : (s.cntOut + 1) % 2 ^ log2Up (c.dataBeats + 1) = s.cntOut + 1 :=
    Nat.mod_eq_of_lt (lt_of_lt_of_le (Nat.succ_lt_succ hlt) (le_two_pow_log2Up _))
  rw [rest_of_active (s := s.send i) hnow hdata]
  cases hfire : s.dataFire i with
  | false =>
    rw [send, hfire, rest_of_active hactive hdata]
    rfl
  | true =>
    rw [send, hfire, rest_of_lt hactive hdata hlt, data_of_active hactive hdata, if_pos hlt, hwrap]
    rfl

end

section

variable (h : s.activeOut = false ∨ s.hasData = false ∨ ¬s.cntOut < c.dataBeats)

include h

theorem rest_eq_nil : s.rest = [] := by
  rw [rest]
  rcases h with hidle | hdata | hlt
  · rw [hidle]
    rfl
  · rw [hdata, Bool.and_false]
    rfl
  · rw [Nat.sub_eq_zero_of_le (Nat.not_lt.mp hlt)]
    exact ite_self _

theorem data_eq_none : s.data = none := by
  rw [data]
  rcases h with hidle | hdata | hlt
  · rw [hidle]
    rfl
  · rw [hdata, Bool.and_false]
    rfl
  · rw [decide_eq_false hlt, Bool.and_false]
    rfl

end

/-- As long as there is a rest, its first beat is offered. -/
theorem rest_of_data (h : s.data = none) : s.rest = [] := by
  cases hactive : s.activeOut with
  | false => exact rest_eq_nil (.inl hactive)
  | true =>
    cases hdata : s.hasData with
    | false => exact rest_eq_nil (.inr (.inl hdata))
    | true =>
      rw [data_of_active hactive hdata] at h
      refine rest_eq_nil (.inr (.inr fun hlt => ?_))
      rw [if_pos hlt] at h
      cases h

theorem send_rest_eq_nil (h : s.hasData = false ∨ ¬s.cntOut < c.dataBeats) :
    (s.send i).rest = [] := by
  have hfire : s.dataFire i = false := by
    rw [dataFire, data_eq_none (.inr h)]
    exact Bool.and_false _
  have hcnt : (s.send i).cntOut = s.cntOut := by
    rw [send, hfire]
    rfl
  refine rest_eq_nil (.inr (h.imp id fun hlt => ?_))
  rwa [hcnt]

theorem entered_eq : s.memDataQ.entered false (s.dataInput i) =
    if s.dataFire i then s.data.toList else [] := by
  rw [Queue.entered, dataFire]
  cases s.memDataQ.enqReady false (s.dataInput i) with
  | false => rfl
  | true =>
    rw [dataInput]
    cases s.data <;> rfl

/-- The beats that wait, and the queue takes the first of them or not. -/
theorem rest_step : FifoStep s.rest ((s.acquired i).toList.flatMap Acquire.beats)
    (s.memDataQ.entered false (s.dataInput i)) (s.next i).rest := by
  rw [entered_eq, dataFire]
  cases hactive : s.activeOut with
  | false =>
    rw [FifoStep, data_eq_none (.inl hactive), rest_eq_nil (.inl hactive), Option.isSome_none,
      Bool.and_false]
    cases hacq : s.acquired i with
    | some a =>
      rw [(next_of_acquired hacq).2.2, Option.toList_some, List.flatMap_singleton]
      rfl
    | none =>
      rw [rest_eq_nil (.inl (next_of_idle hacq hactive))]
      rfl
  | true =>
    have hnext : (s.next i).rest = (s.send i).rest := by rw [next_of_active hactive]; rfl
    rw [← dataFire, FifoStep, acquired_of_active hactive, hnext]
    by_cases hmore : s.hasData = true ∧ s.cntOut < c.dataBeats
    · exact (List.append_nil _).trans (send_rest_of_lt hactive hmore.1 hmore.2)
    · have hdone : s.hasData = false ∨ ¬s.cntOut < c.dataBeats := by
        by_contra hnot
        rw [not_or, Bool.not_eq_false, not_not] at hnot
        exact hmore hnot
      rw [rest_eq_nil (.inr hdone), send_rest_eq_nil hdone, data_eq_none (.inr hdone)]
      exact (congrArg (· ++ []) (ite_self _)).symm

/-- When nothing is left of an acquire, the next one may enter. -/
theorem next_of_empty (hactive : s.activeOut = true) (hcnt : s.Counted) (hcmd : s.cmd = none)
    (hrest : s.rest = []) : (s.next i).activeOut = false := by
  have hsent : s.cmdSentOut = true := by
    rw [cmd, hactive] at hcmd
    cases hsent : s.cmdSentOut with
    | false =>
      rw [hsent] at hcmd
      cases hcmd
    | true => rfl
  have hdone : (!s.hasData || decide (s.cntOut = c.dataBeats)) = true := by
    cases hdata : s.hasData with
    | false => rfl
    | true =>
      rw [rest_of_active hactive hdata] at hrest
      have hlen := congrArg List.length hrest
      rw [List.length_map, length_firstChunks] at hlen
      exact decide_eq_true (le_antisymm (hcnt hactive) (Nat.le_of_sub_eq_zero hlen))
  rw [next_of_active hactive]
  show (s.send i).activeOut = false
  rw [send, hsent, hdone]
  rfl

end Outgoing

/-! ### Responses -/

namespace Incoming

/-- The answers that were granted, and what is gathered of the next one: `resps` beats came and
`grants` were taken. -/
structure Gathers (answers : ℕ → MemAnswer c) (s : Incoming c) (resps : ℕ)
    (grants : List (Grant c)) : Prop where
  grants_eq : grants = (List.range grants.length).map fun k => (answers k).grant
  resps_eq : resps = grants.length * c.dataBeats + if s.activeIn then s.cntIn else 0
  gathered : s.activeIn = true → 0 < s.cntIn ∧ s.cntIn ≤ c.dataBeats ∧
    s.tagIn = (answers grants.length).tag ∧
      ShiftedIn c.dataBits c.dataBeats s.bufIn (answers grants.length).data.toNat s.cntIn

variable {answers : ℕ → MemAnswer c} {s : Incoming c} {i : MemIOInput c} {resps : ℕ}
  {grants : List (Grant c)}

theorem Gathers.grant_eq (h : Gathers answers s resps grants) (hactive : s.activeIn = true)
    (hcnt : s.cntIn = c.dataBeats) : s.grant = some (answers grants.length).grant := by
  obtain ⟨-, -, htag, hbuf⟩ := h.gathered hactive
  rw [hcnt] at hbuf
  have hread := hbuf.read (answers grants.length).data.isLt
  rw [Nat.sub_self, Nat.zero_mul, pow_zero, Nat.div_one] at hread
  rw [Incoming.grant, hactive, decide_eq_true hcnt, htag, hread, BitVec.ofNat_toNat,
    BitVec.setWidth_eq]
  rfl

theorem chunk_toNat_beat (r : MemAnswer c) (k : ℕ) :
    (r.beat k).data.toNat = chunk c.dataBits r.data.toNat k := by
  rw [MemAnswer.beat, BitVec.extractLsb'_toNat, Nat.shiftRight_eq_div_pow, chunk]

theorem next_of_idle (hidle : s.activeIn = false) {r : MemResp c} (hresp : i.resp = some r) :
    s.next i =
      ⟨1, true, r.data.toNat * 2 ^ (c.dataBits * (c.dataBeats - 1)), r.tag⟩ := by
  simp only [next, hidle, hresp]
  rfl

theorem granted_of_lt (hlt : s.activeIn = true → s.cntIn < c.dataBeats) : s.granted i = none := by
  have hnone : s.grant = none := by
    refine if_neg fun h => ?_
    obtain ⟨hactive, hcnt⟩ := Bool.and_eq_true_iff.mp h
    exact (hlt hactive).ne (of_decide_eq_true hcnt)
  rw [granted, hnone, ite_self]

theorem next_of_active (hactive : s.activeIn = true) (hlt : s.cntIn < c.dataBeats) {r : MemResp c}
    (hresp : i.resp = some r) : s.next i = { s with
      bufIn := shiftIn c.dataBits c.dataBeats s.bufIn r.data.toNat
      cntIn := s.cntIn + 1 } := by
  have hwrap : (s.cntIn + 1) % 2 ^ log2Up (c.dataBeats + 1) = s.cntIn + 1 :=
    Nat.mod_eq_of_lt (lt_of_lt_of_le (Nat.succ_lt_succ hlt) (le_two_pow_log2Up _))
  have hready : s.respReady = true := by
    rw [respReady, decide_eq_true hlt]
    exact Bool.or_true _
  simp only [next, if_pos hactive, granted_of_lt (i := i) fun _ => hlt, responded, if_pos hready,
    hresp, hwrap]
  rfl

/-- All beats of an answer have come, and the next one has to wait. -/
theorem responded_of_full (hactive : s.activeIn = true) (hcnt : s.cntIn = c.dataBeats) :
    s.responded i = none := by
  refine if_neg ?_
  rw [respReady, hactive, decide_eq_false hcnt.not_lt]
  exact Bool.false_ne_true

theorem responded_of_grant (h : s.grant ≠ none) : s.responded i = none := by
  have hfull : s.activeIn = true ∧ s.cntIn = c.dataBeats := by
    by_contra hnot
    refine h (if_neg fun hgrant => hnot ?_)
    exact (Bool.and_eq_true_iff.mp hgrant).imp_right of_decide_eq_true
  exact responded_of_full hfull.1 hfull.2

theorem next_of_full (hactive : s.activeIn = true) (hcnt : s.cntIn = c.dataBeats) :
    s.next i = { s with activeIn := !(s.granted i).isSome } := by
  simp only [next, if_pos hactive, responded_of_full hactive hcnt]
  cases (s.granted i).isSome with
  | false => rw [if_neg (by simp), Bool.not_false, ← hactive]
  | true => rfl

theorem Gathers.first (h : Gathers answers s resps grants) (hidle : s.activeIn = false)
    (hresp : i.resp = some ((answers grants.length).beat 0)) :
    Gathers answers (s.next i) (resps + 1) grants := by
  have hresps := h.resps_eq
  rw [hidle] at hresps
  have hlow := c.dataBeats_pos
  rw [next_of_idle hidle hresp]
  refine ⟨h.grants_eq, by rw [hresps]; rfl, fun _ => ⟨Nat.one_pos, hlow, rfl, ?_⟩⟩
  dsimp only
  rw [chunk_toNat_beat, Nat.mul_comm c.dataBits]
  exact ShiftedIn.first hlow

theorem Gathers.more (h : Gathers answers s resps grants) (hactive : s.activeIn = true)
    (hlt : s.cntIn < c.dataBeats)
    (hresp : i.resp = some ((answers grants.length).beat s.cntIn)) :
    Gathers answers (s.next i) (resps + 1) grants := by
  obtain ⟨hpos, -, htag, hbuf⟩ := h.gathered hactive
  have hresps := h.resps_eq
  rw [hactive] at hresps
  rw [next_of_active hactive hlt hresp]
  refine ⟨h.grants_eq, ?_, fun _ => ⟨Nat.succ_pos _, hlt, htag, ?_⟩⟩
  · rw [hresps, hactive]
    rfl
  · dsimp only
    rw [chunk_toNat_beat]
    exact hbuf.next c.dataBits_pos hlt

theorem Gathers.grant (h : Gathers answers s resps grants) (hactive : s.activeIn = true)
    (hcnt : s.cntIn = c.dataBeats) (hready : i.grantReady = true) :
    Gathers answers (s.next i) resps (grants ++ [(answers grants.length).grant]) := by
  have hgranted : s.granted i = some (answers grants.length).grant := by
    rw [granted, if_pos hready, h.grant_eq hactive hcnt]
  have hresps := h.resps_eq
  rw [hactive, if_pos rfl, hcnt, ← Nat.succ_mul] at hresps
  rw [next_of_full hactive hcnt, hgranted]
  refine ⟨?_, ?_, nofun⟩
  · rw [List.length_append, List.length_singleton, List.range_succ, List.map_append,
      ← h.grants_eq]
    rfl
  · rw [List.length_append]
    exact hresps

theorem next_of_silent (hresp : s.responded i = none) (hgrant : s.granted i = none) :
    s.next i = s := by
  cases hactive : s.activeIn with
  | false =>
    have hnone : i.resp = none := by
      rw [responded, respReady, hactive] at hresp
      exact hresp
    simp only [next, hactive, hnone]
    rfl
  | true =>
    simp only [next, if_pos hactive, hresp, hgrant]
    rfl

/-- **One cycle**, in which at most the next beat of the answers comes. -/
theorem Gathers.next (h : Gathers answers s resps grants)
    (hbeat : ∀ r, s.responded i = some r →
      r = (answers (resps / c.dataBeats)).beat (resps % c.dataBeats)) :
    Gathers answers (s.next i) (resps + (s.responded i).toList.length)
      (grants ++ (s.granted i).toList) := by
  have hpos := c.dataBeats_pos
  by_cases hfull : s.activeIn = true ∧ s.cntIn = c.dataBeats
  · obtain ⟨hactive, hcnt⟩ := hfull
    have hnone := responded_of_full (i := i) hactive hcnt
    rw [hnone]
    cases hready : i.grantReady with
    | false =>
      have hgrant : s.granted i = none := by rw [granted, hready]; rfl
      rw [next_of_silent hnone hgrant, hgrant]
      exact (List.append_nil grants).symm ▸ h
    | true =>
      have hgrant : s.granted i = some (answers grants.length).grant := by
        rw [granted, if_pos hready, h.grant_eq hactive hcnt]
      rw [hgrant]
      exact h.grant hactive hcnt hready
  · have hlt (hactive : s.activeIn = true) : s.cntIn < c.dataBeats :=
      (h.gathered hactive).2.1.lt_of_ne fun hcnt => hfull ⟨hactive, hcnt⟩
    have hgrant : s.granted i = none := granted_of_lt hlt
    rw [hgrant, Option.toList_none, List.append_nil]
    cases hresp : s.responded i with
    | none =>
      rw [next_of_silent hresp hgrant]
      exact h
    | some r =>
      have hin : i.resp = some r := by
        rw [responded] at hresp
        split at hresp
        · exact hresp
        · cases hresp
      have hr := hbeat r hresp
      have hresps := h.resps_eq
      cases hactive : s.activeIn with
      | false =>
        rw [hactive, if_neg (by simp), Nat.add_zero] at hresps
        rw [hresps, Nat.mul_div_cancel _ hpos, Nat.mul_mod_left] at hr
        exact h.first hactive (hin.trans (congrArg some hr))
      | true =>
        rw [hactive, if_pos rfl] at hresps
        rw [hresps, Nat.mul_comm, Nat.mul_add_div hpos, Nat.div_eq_of_lt (hlt hactive),
          Nat.add_zero, Nat.mul_add_mod, Nat.mod_eq_of_lt (hlt hactive)] at hr
        exact h.more hactive (hlt hactive) (hin.trans (congrArg some hr))

/-- The grants that are due were taken, or the last one is shown. -/
theorem Gathers.due_eq (h : Gathers answers s resps grants) :
    (List.range (resps / c.dataBeats)).map (fun k => (answers k).grant) =
      grants ++ s.grant.toList := by
  have hpos := c.dataBeats_pos
  have hresps := h.resps_eq
  by_cases hfull : s.activeIn = true ∧ s.cntIn = c.dataBeats
  · obtain ⟨hactive, hcnt⟩ := hfull
    rw [hactive, if_pos rfl, hcnt, ← Nat.succ_mul] at hresps
    rw [hresps, Nat.mul_div_cancel _ hpos, h.grant_eq hactive hcnt, List.range_succ,
      List.map_append, ← h.grants_eq]
    rfl
  · have hnone : s.grant = none := by
      refine if_neg fun hgrant => hfull ?_
      exact (Bool.and_eq_true_iff.mp hgrant).imp_right of_decide_eq_true
    have hpart : (if s.activeIn then s.cntIn else 0) < c.dataBeats := by
      split
      next hactive =>
        exact (h.gathered hactive).2.1.lt_of_ne fun hcnt => hfull ⟨hactive, hcnt⟩
      next => exact hpos
    rw [hresps, Nat.mul_comm, Nat.mul_add_div hpos, Nat.div_eq_of_lt hpart, Nat.add_zero, hnone,
      ← h.grants_eq, Option.toList_none, List.append_nil]

end Incoming

/-! ### Runs -/

namespace ConverterLog

variable (log : ConverterLog c)

def cmdLog : FifoLog (MemReqCmd c) := ⟨log.acquires.map Acquire.cmd, log.cmds⟩

def dataLog : FifoLog (BitVec c.dataBits) := ⟨log.acquires.flatMap Acquire.beats, log.data⟩

def grantLog (answers : ℕ → MemAnswer c) : FifoLog (Grant c) := ⟨log.due answers, log.grants⟩

end ConverterLog

/-- The commands that were not sent yet. -/
def heldCmds (s : MemIOConverter c) : List (MemReqCmd c) :=
  s.outgoing.memCmdQ.held ++ s.outgoing.cmd.toList

/-- The beats that were not sent yet. -/
def heldData (s : MemIOConverter c) : List (BitVec c.dataBits) :=
  s.outgoing.memDataQ.held ++ s.outgoing.rest

section

variable {st : ℕ → MemIOConverter c × ConverterLog c} {lab : ℕ → MemIOInput c}
  (hrun : (machine c).Run st lab)

include hrun

variable (t : ℕ) {answers : ℕ → MemAnswer c}

theorem state_succ : (st (t + 1)).1 = (st t).1.next (lab t) := (hrun.step t).1

theorem log_succ : (st (t + 1)).2 = (st t).1.note (lab t) (st t).2 := (hrun.step t).2

theorem cmdLog_succ : (st (t + 1)).2.cmdLog = (st t).2.cmdLog.note
    (((st t).1.outgoing.acquired (lab t)).toList.map Acquire.cmd)
    ((st t).1.outgoing.memCmdQ.left false ((st t).1.outgoing.cmdInput (lab t))) := by
  rw [log_succ hrun, ConverterLog.cmdLog, note, List.map_append]
  rfl

theorem dataLog_succ : (st (t + 1)).2.dataLog = (st t).2.dataLog.note
    (((st t).1.outgoing.acquired (lab t)).toList.flatMap Acquire.beats)
    ((st t).1.outgoing.memDataQ.left false ((st t).1.outgoing.dataInput (lab t))) := by
  rw [log_succ hrun, ConverterLog.dataLog, note, List.flatMap_append]
  rfl

/-- **Requests are conserved.** -/
theorem requests_conserve : (st t).2.cmdLog.Conserves (st t).1.heldCmds ∧
    (st t).2.dataLog.Conserves (st t).1.heldData := by
  induction t with
  | zero =>
    obtain ⟨⟨⟨hcmdQ, hdataQ, hidle⟩, -⟩, hlog⟩ := hrun.init
    have hcmd : (st 0).1.outgoing.cmd = none := by rw [Outgoing.cmd, hidle]; rfl
    constructor
    · rw [heldCmds, hcmdQ.held, hcmd, hlog]
      rfl
    · rw [heldData, hdataQ.held, Outgoing.rest_eq_nil (.inl hidle), hlog]
      rfl
  | succ t ih =>
    rw [cmdLog_succ hrun, dataLog_succ hrun, state_succ hrun]
    exact ⟨ih.1.note (Outgoing.cmd_step.series Queue.step),
      ih.2.note (Outgoing.rest_step.series Queue.step)⟩

/-- The beat that is taken is the next one of the answers. -/
theorem beat_eq (hmem : ∀ t, Answered answers (st t).2) {t : ℕ} {r : MemResp c}
    (hr : (st t).1.incoming.responded (lab t) = some r) :
    r = (answers ((st t).2.resps.length / c.dataBeats)).beat
      ((st t).2.resps.length % c.dataBeats) := by
  have hnext := hmem (t + 1)
  rw [Answered, log_succ hrun, note, hr, Option.toList_some, List.length_append,
    List.length_singleton, List.range_succ, List.map_append] at hnext
  exact List.singleton_inj.mp (List.append_inj_right' hnext rfl)

/-- **Responses are conserved**, if the memory gives whole answers. -/
theorem responses_conserve (hmem : ∀ t, Answered answers (st t).2)
    (t : ℕ) : (st t).1.incoming.Gathers answers (st t).2.resps.length (st t).2.grants := by
  induction t with
  | zero =>
    obtain ⟨⟨-, hidle⟩, hlog⟩ := hrun.init
    rw [hlog]
    refine ⟨rfl, ?_, fun hactive => ?_⟩
    · rw [hidle]
      exact (Nat.zero_mul _).symm
    · rw [hidle] at hactive
      cases hactive
  | succ t ih =>
    rw [log_succ hrun, state_succ hrun]
    have hnext := ih.next fun r hr => beat_eq hrun hmem hr
    rw [← List.length_append] at hnext
    exact hnext

theorem memCmdQ_succ : (st (t + 1)).1.outgoing.memCmdQ =
    (st t).1.outgoing.memCmdQ.next false false ((st t).1.outgoing.cmdInput (lab t)) := by
  rw [state_succ hrun]
  rfl

theorem memDataQ_succ : (st (t + 1)).1.outgoing.memDataQ =
    (st t).1.outgoing.memDataQ.next false false ((st t).1.outgoing.dataInput (lab t)) := by
  rw [state_succ hrun]
  rfl

theorem cmds_move (hready : ∀ t, ∃ u ≥ t, (lab u).reqCmdReady = true) {t : ℕ}
    (ht : (st t).1.heldCmds ≠ []) : ∃ u ≥ t, (st t).2.cmds.length < (st u).2.cmds.length := by
  obtain ⟨u, hu, hleft⟩ := @Queue.leaves_of_offered _ _ _ _ (fun t => (st t).1.outgoing.memCmdQ)
    (fun t => (st t).1.outgoing.cmdInput (lab t)) (memCmdQ_succ hrun) hready t ht
  exact ⟨u + 1, Nat.le_succ_of_le hu, FifoLog.length_left_lt (fun t => (st t).2.cmdLog)
    (fun t => ⟨_, _, cmdLog_succ hrun t⟩) hu (cmdLog_succ hrun u) hleft⟩

/-- The beats behind the next one are not offered yet, but there is no rest without a next one. -/
theorem data_move (hready : ∀ t, ∃ u ≥ t, (lab u).reqDataReady = true) {t : ℕ}
    (ht : (st t).1.heldData ≠ []) : ∃ u ≥ t, (st t).2.data.length < (st u).2.data.length := by
  have hoffered : (st t).1.outgoing.memDataQ.held ++ (st t).1.outgoing.data.toList ≠ [] := by
    intro hnil
    obtain ⟨hheld, hdata⟩ := List.append_eq_nil_iff.mp hnil
    exact ht (List.append_eq_nil_iff.mpr
      ⟨hheld, Outgoing.rest_of_data (Option.toList_eq_nil_iff.mp hdata)⟩)
  obtain ⟨u, hu, hleft⟩ := @Queue.leaves_of_offered _ _ _ _ (fun t => (st t).1.outgoing.memDataQ)
    (fun t => (st t).1.outgoing.dataInput (lab t)) (memDataQ_succ hrun) hready t hoffered
  exact ⟨u + 1, Nat.le_succ_of_le hu, FifoLog.length_left_lt (fun t => (st t).2.dataLog)
    (fun t => ⟨_, _, dataLog_succ hrun t⟩) hu (dataLog_succ hrun u) hleft⟩

theorem grantLog_succ (answers : ℕ → MemAnswer c) (t : ℕ) : ∃ entered,
    (st (t + 1)).2.grantLog answers = ((st t).2.grantLog answers).note entered
      ((st t).1.incoming.granted (lab t)).toList := by
  have hle : (st t).2.resps.length / c.dataBeats ≤ (st (t + 1)).2.resps.length / c.dataBeats := by
    rw [log_succ hrun, note, List.length_append]
    exact Nat.div_le_div_right (Nat.le_add_right ..)
  obtain ⟨d, hd⟩ := Nat.exists_eq_add_of_le hle
  refine ⟨(List.range d).map fun k => (answers ((st t).2.resps.length / c.dataBeats + k)).grant, ?_⟩
  have hdue : (st (t + 1)).2.due answers = (st t).2.due answers ++
      (List.range d).map fun k => (answers ((st t).2.resps.length / c.dataBeats + k)).grant := by
    rw [ConverterLog.due, hd, List.range_add, List.map_append, List.map_map]
    rfl
  rw [ConverterLog.grantLog, hdue, log_succ hrun]
  rfl

theorem grants_move (answers : ℕ → MemAnswer c)
    (hready : ∀ t, ∃ u ≥ t, (lab u).grantReady = true) {t : ℕ}
      (ht : (st t).1.incoming.grant.toList ≠ []) :
    ∃ u ≥ t, (st t).2.grants.length < (st u).2.grants.length := by
  have hstay (u : ℕ) (hu : (st u).1.incoming.grant.toList ≠ [])
      (hn : ¬(lab u).grantReady = true) : (st (u + 1)).1.incoming.grant.toList ≠ [] := by
    have hsame : (st (u + 1)).1.incoming = (st u).1.incoming := by
      rw [state_succ hrun]
      refine Incoming.next_of_silent (Incoming.responded_of_grant fun h => hu ?_) (if_neg hn)
      rw [h]
      rfl
    rwa [hsame]
  obtain ⟨u, hu, hshown, hrdy⟩ := Machine.exists_of_stays ht hstay (hready t)
  have hgranted : ((st u).1.incoming.granted (lab u)).toList ≠ [] := by
    rw [Incoming.granted, if_pos hrdy]
    exact hshown
  obtain ⟨entered, hentered⟩ := grantLog_succ hrun answers u
  exact ⟨u + 1, Nat.le_succ_of_le hu, FifoLog.length_left_lt (fun t => (st t).2.grantLog answers)
    (fun t => (grantLog_succ hrun answers t).imp fun _ h => ⟨_, h⟩) hu hentered hgranted⟩

/-- What was accepted is sent, if the memory takes commands again and again. -/
theorem cmds_come (hready : ∀ t, ∃ u ≥ t, (lab u).reqCmdReady = true) (t : ℕ) :
    ∃ u ≥ t, (st t).2.acquires.map Acquire.cmd <+: (st u).2.cmds :=
  FifoLog.delivers (fun t => (st t).2.cmdLog) (fun t => (st t).1.heldCmds)
    (fun t => ⟨_, _, cmdLog_succ hrun t⟩) (fun t => (requests_conserve hrun t).1)
    (fun _ ht => cmds_move hrun hready ht) t

theorem data_comes (hready : ∀ t, ∃ u ≥ t, (lab u).reqDataReady = true) (t : ℕ) :
    ∃ u ≥ t, (st t).2.acquires.flatMap Acquire.beats <+: (st u).2.data :=
  FifoLog.delivers (fun t => (st t).2.dataLog) (fun t => (st t).1.heldData)
    (fun t => ⟨_, _, dataLog_succ hrun t⟩) (fun t => (requests_conserve hrun t).2)
    (fun _ ht => data_move hrun hready ht) t

theorem counted : (st t).1.outgoing.Counted := by
  induction t with
  | zero =>
    intro hactive
    rw [hrun.init.1.1.activeOut] at hactive
    cases hactive
  | succ t ih =>
    rw [state_succ hrun]
    exact ih.next

/-- The converter takes the next acquire: as long as it takes none, what is left of the last one
gets less. -/
theorem idle_again (hcmd : ∀ t, ∃ u ≥ t, (lab u).reqCmdReady = true)
    (hdata : ∀ t, ∃ u ≥ t, (lab u).reqDataReady = true) (t : ℕ) :
    ∃ u ≥ t, (st u).1.outgoing.activeOut = false := by
  by_contra hnever
  have hactive (u : ℕ) (hu : t ≤ u) : (st u).1.outgoing.activeOut = true := by
    rw [← Bool.not_eq_false]
    exact fun h => hnever ⟨u, hu, h⟩
  have hsame (u : ℕ) (hu : t ≤ u) : (st u).2.acquires = (st t).2.acquires := by
    induction u, hu using Nat.le_induction with
    | base => rfl
    | succ u hu ih =>
      rw [log_succ hrun, note, Outgoing.acquired_of_active (hactive u hu), ih]
      exact List.append_nil _
  obtain ⟨u, hu, hcmds⟩ := cmds_come hrun hcmd t
  obtain ⟨v, hv, hbeats⟩ := data_comes hrun hdata u
  have hcmdLog := FifoLog.le_of_note (fun t => (st t).2.cmdLog)
    (fun t => ⟨_, _, cmdLog_succ hrun t⟩) hv
  rw [hsame u hu, ← hsame v (hu.trans hv)] at hbeats
  rw [← hsame v (hu.trans hv)] at hcmds
  have hnow := (requests_conserve hrun v).1.held_eq_nil (hcmds.trans hcmdLog.2)
  have hrest := (requests_conserve hrun v).2.held_eq_nil hbeats
  have hidle : (st (v + 1)).1.outgoing.activeOut = false := by
    rw [state_succ hrun]
    exact Outgoing.next_of_empty (hactive v (hu.trans hv)) (counted hrun v)
      (Option.toList_eq_nil_iff.mp (List.append_eq_nil_iff.mp hnow).2)
      (List.append_eq_nil_iff.mp hrest).2
  exact hnever ⟨v + 1, Nat.le_succ_of_le (hu.trans hv), hidle⟩

/-- **The converter preserves transactions.** However the two sides stall, the commands that the
memory was given are those of the first acquires, the beats are those of the first writing acquires,
and, if the memory gives whole answers, the grants are those of the first answers. If the other side
is ready again and again, everything comes, and the next acquire is taken. An address and an
identifier stay the same if the memory has as many bits for them. -/
theorem preserves :
    (∀ t, (st t).2.cmds <+: (st t).2.acquires.map Acquire.cmd ∧
      (st t).2.data <+: (st t).2.acquires.flatMap Acquire.beats) ∧
    ((∀ t, ∃ u ≥ t, (lab u).reqCmdReady = true) →
      ∀ t, ∃ u ≥ t, (st t).2.acquires.map Acquire.cmd <+: (st u).2.cmds) ∧
    ((∀ t, ∃ u ≥ t, (lab u).reqDataReady = true) →
      ∀ t, ∃ u ≥ t, (st t).2.acquires.flatMap Acquire.beats <+: (st u).2.data) ∧
    ((∀ t, ∃ u ≥ t, (lab u).reqCmdReady = true) → (∀ t, ∃ u ≥ t, (lab u).reqDataReady = true) →
      ∀ t, ∃ u ≥ t, (st u).1.outgoing.activeOut = false) ∧
    (∀ answers, (∀ t, Answered answers (st t).2) →
      (∀ t, (st t).2.grants <+: (st t).2.due answers) ∧
      ((∀ t, ∃ u ≥ t, (lab u).grantReady = true) →
        ∀ t, ∃ u ≥ t, (st t).2.due answers <+: (st u).2.grants)) ∧
    (c.addrBits ≤ c.memAddrBits → ∀ a : Acquire c, a.cmd.addr.setWidth c.addrBits = a.addr) ∧
    (c.clientXactIdBits ≤ c.tagBits →
      ∀ a : Acquire c, a.cmd.tag.setWidth c.clientXactIdBits = a.clientXactId) := by
  have hrequests := requests_conserve hrun
  refine ⟨fun t => ?_, cmds_come hrun, data_comes hrun, idle_again hrun,
    fun answers hmem => ⟨fun t => ?_, fun hready => ?_⟩, fun h a => ?_, fun h a => ?_⟩
  · exact ⟨⟨_, (hrequests t).1.symm⟩, ⟨_, (hrequests t).2.symm⟩⟩
  · exact ⟨_, (responses_conserve hrun hmem t).due_eq.symm⟩
  · exact FifoLog.delivers (fun t => (st t).2.grantLog answers)
      (fun t => (st t).1.incoming.grant.toList)
      (fun t => (grantLog_succ hrun answers t).imp fun _ h => ⟨_, h⟩)
      (fun t => (responses_conserve hrun hmem t).due_eq)
      fun t ht => grants_move hrun answers hready ht
  · rw [Acquire.cmd, BitVec.setWidth_setWidth_of_le _ h, BitVec.setWidth_eq]
  · rw [Acquire.cmd, BitVec.setWidth_setWidth_of_le _ h, BitVec.setWidth_eq]

end

/-! ### A write -/

/-- The chip with `MESICoherence`: only `acquireWriteUncached` has to write outer memory. -/
def chip : MemIOConf where
  AcquireType := Sharing.AcquireType
  needsOuterWrite a := a == Sharing.AcquireType.acquireWriteUncached
  addrBits := 26
  clientXactIdBits := 3
  memAddrBits := 26
  tagBits := 5
  dataBits := 128
  dataBeats := 4
  qDepth := 2
  dataBits_pos := by decide
  dataBeats_pos := Nat.succ_pos 3
  qDepth_pos := by decide

def resetState : MemIOConverter chip where
  outgoing := {
    memCmdQ := ⟨⟨0, 0, false⟩, fun _ => ⟨0, 0, false⟩⟩
    memDataQ := ⟨⟨0, 0, false⟩, fun _ => 0⟩
    cntOut := 0
    activeOut := false
    cmdSentOut := false
    bufOut := 0
    tagOut := 0
    addrOut := 0
    hasData := false }
  incoming := ⟨0, false, 0, 0⟩

def writeUncached : Acquire chip := ⟨Sharing.AcquireType.acquireWriteUncached, 3, 64, 1⟩

/-- A write comes in each cycle, and the memory is always ready. -/
def writes (_ : ℕ) : MemIOInput chip := ⟨some writeUncached, true, true, true, none⟩

theorem preserves_writes : ∃ st, (machine chip).Run st writes ∧
    (∃ u, [writeUncached.cmd] <+: (st u).2.cmds) ∧ ∃ u, writeUncached.beats <+: (st u).2.data := by
  have hreset : IsReset resetState := ⟨⟨rfl, rfl, rfl⟩, rfl⟩
  obtain ⟨st, hrun, h0⟩ : ∃ st, (machine chip).Run st writes ∧
      st 0 = (resetState, ⟨[], [], [], [], []⟩) := Machine.exists_run hreset writes
  have hfirst : (st 1).2.acquires = [writeUncached] := by
    rw [log_succ hrun 0, h0]
    rfl
  have h := preserves hrun
  obtain ⟨u, -, hcmds⟩ := h.2.1 (fun t => ⟨t, le_rfl, rfl⟩) 1
  obtain ⟨v, -, hbeats⟩ := h.2.2.1 (fun t => ⟨t, le_rfl, rfl⟩) 1
  rw [hfirst] at hcmds hbeats
  rw [List.flatMap_singleton] at hbeats
  exact ⟨st, hrun, ⟨u, hcmds⟩, v, hbeats⟩

end MemIOConverter

end RiscvSoc
