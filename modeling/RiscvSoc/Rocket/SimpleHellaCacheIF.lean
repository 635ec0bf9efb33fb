import Mathlib.Data.List.Perm.Basic
import RiscvSoc.Lib.Queue
import RiscvSoc.Rocket.AMOALU
import RiscvSoc.Rocket.MSHR

/-!
# A decoupled interface to the data cache

`SimpleHellaCacheIF` from `rocket/src/main/scala/nbdcache.scala`. The cache takes a request without
knowing yet whether it can perform it: two cycles later it may answer with a nack, and by then a
younger request is on its way. The interface hides this from its client. It kills the younger
request, and sends first the older one and then the younger one again.

## The cache

What the interface sees of the cache are the first two stages of `HellaCache`. A request that was
taken in one cycle is in the first stage in the next; unless it is killed there it is valid in the
second, where it is performed unless it is nacked. `resp.bits` shows the second stage in any case.
Whether the cache is ready, which requests it nacks, and when and in which order it answers those it
performed are inputs. A request for which the second stage is free again is answered from there
later (`replay`), since the cache sends its own replays through the same stages.

The code of a memory command has five bits, and `HellaCacheResp.cmd` has four.
-/

namespace RiscvSoc

namespace Rocket

/-! ### Requests and responses -/

/-- The command that is left in a field of four bits. -/
def lowerCmd : MemCmd → MemCmd
  | .inv => .xrd
  | .cln => .xwr
  | cmd => cmd

/-- What a request asks for. The data of a request that writes nothing do not matter. -/
structure HellaOp where
  cmd : MemCmd
  typ : ℕ
  addr : ℕ
  tag : ℕ
  data : Option ℕ
  deriving DecidableEq

def HellaCacheReq.op (r : HellaCacheReq) : HellaOp :=
  ⟨r.cmd, r.typ, r.addr, r.tag, if r.cmd.isWrite then some r.data else none⟩

/-- `io.resp.bits`. -/
structure HellaCacheResp where
  nack : Bool
  replay : Bool
  typ : ℕ
  hasData : Bool
  data : ℕ
  dataSubword : ℕ
  tag : ℕ
  cmd : MemCmd
  addr : ℕ
  storeData : ℕ

/-- The request that is shown in a response. Nobody drives `kill` and `phys`. -/
def HellaCacheResp.request (r : HellaCacheResp) : HellaCacheReq where
  kill := false
  typ := r.typ
  phys := false
  addr := r.addr
  data := r.storeData
  tag := r.tag
  cmd := r.cmd

/-! ### The interface -/

/-- What the interface sees in one cycle. -/
structure SimpleHellaInput where
  /-- `io.requestor.req.bits` under `io.requestor.req.valid`. -/
  requestorReq : Option HellaCacheReq
  cacheReady : Bool
  resp : HellaCacheResp

structure SimpleHellaCacheIF where
  replaying : Bool
  replayq1 : Queue HellaCacheReq 1
  replayq2 : Queue HellaCacheReq 1
  s3Nack : Bool
  s1ReqFire : Bool
  s2ReqFire : Bool
  /-- `replaying_cmb` one and two cycles ago. -/
  replayingD1 : Bool
  replayingD2 : Bool
  /-- The data of the request that was sent last. -/
  data : ℕ

namespace SimpleHellaCacheIF

variable (s : SimpleHellaCacheIF) (i : SimpleHellaInput)

/-- A replayed request has gone through. -/
def sunk : Bool := s.s2ReqFire && s.replayingD2 && !i.resp.nack

/-- `replayq2.io.deq.bits` under `replayq2.io.deq.valid`. -/
def stashed : Option HellaCacheReq := s.replayq2.deq false ⟨none, false⟩

def replayq2Input : QueueInput HellaCacheReq where
  enq := if s.s2ReqFire && s.s3Nack then some i.resp.request else none
  deqReady := s.sunk i && s.stashed.isSome

def replayq1Input : QueueInput HellaCacheReq where
  enq :=
    if s.sunk i && s.stashed.isSome then s.stashed
    else if i.resp.nack then some i.resp.request
    else none
  deqReady := i.cacheReady

def replayingCmb : Bool :=
  if s.sunk i && !s.stashed.isSome then false
  else if i.resp.nack then true
  else s.replaying

/-- `replayq1.io.deq.bits` under `replayq1.io.deq.valid`. -/
def replay : Option HellaCacheReq := s.replayq1.deq true (s.replayq1Input i)

/-- `req_arb.io.out.bits` under `req_arb.io.out.valid`. -/
def reqArb : Option HellaCacheReq :=
  if (s.replay i).isSome then s.replay i
  else if s.replayingCmb i then none
  else i.requestorReq

/-- `io.requestor.req.ready`. -/
def requestorReady : Bool := !s.replayingCmb i && (!(s.replay i).isSome && i.cacheReady)

/-- `io.cache.req.bits` under `io.cache.req.valid`. -/
def cacheReq : Option HellaCacheReq :=
  (s.reqArb i).map fun r => { r with kill := i.resp.nack, phys := true, data := s.data }

/-- `s0_req_fire`. -/
def s0ReqFire : Bool := (s.reqArb i).isSome && i.cacheReady

/-- One cycle. -/
def next : SimpleHellaCacheIF where
  replaying := s.replayingCmb i
  replayq1 := s.replayq1.next false true (s.replayq1Input i)
  replayq2 := s.replayq2.next false false (s.replayq2Input i)
  s3Nack := i.resp.nack
  s1ReqFire := s.s0ReqFire i
  s2ReqFire := s.s1ReqFire
  replayingD1 := s.replayingCmb i
  replayingD2 := s.replayingD1
  data :=
    match s.reqArb i with
    | some r => if i.cacheReady then r.data else s.data
    | none => s.data

/-- Reset. The registers without a reset value have settled: while the circuit is held in reset
nothing is sent and nothing is nacked. -/
structure IsReset : Prop where
  replaying : s.replaying = false
  replayq1 : s.replayq1.IsReset
  replayq2 : s.replayq2.IsReset
  s3Nack : s.s3Nack = false
  s1ReqFire : s.s1ReqFire = false
  s2ReqFire : s.s2ReqFire = false
  replayingD1 : s.replayingD1 = false
  replayingD2 : s.replayingD2 = false

/-- `io.requestor.resp.bits`. -/
def requestorResp : HellaCacheResp := i.resp

/-- The request that is taken from the client. -/
def accepted : Option HellaCacheReq := if s.requestorReady i then i.requestorReq else none

end SimpleHellaCacheIF

open SimpleHellaCacheIF

/-! ### The interface in front of a cache -/

/-- What is open in one cycle. -/
structure SimpleHellaCycle where
  requestorReq : Option HellaCacheReq
  cacheReady : Bool
  /-- The second stage cannot perform its request. -/
  s2Nack : Bool
  /-- The second stage answers at once. -/
  s2Hit : Bool
  /-- Which of the unanswered requests comes back in the second stage. -/
  replay : Option ℕ
  /-- What is in the second stage if it is none of these. -/
  other : HellaCacheReq
  /-- What a request that writes nothing has for data in the second stage. -/
  otherData : ℕ
  data : ℕ
  dataSubword : ℕ

structure SimpleHellaSystem where
  iface : SimpleHellaCacheIF
  s1 : Option HellaCacheReq
  s2 : Option HellaCacheReq
  s2Valid : Bool
  /-- What the cache has performed and not answered. -/
  owed : List HellaCacheReq

namespace SimpleHellaSystem

variable (s : SimpleHellaSystem) (i : SimpleHellaCycle)

/-- The request that the cache performs in this cycle. -/
def performed : Option HellaCacheReq := if s.s2Valid && !i.s2Nack then s.s2 else none

def owedNow : List HellaCacheReq := s.owed ++ (s.performed i).toList

/-- Which request is answered. -/
def answer : Option ℕ :=
  match s.s2 with
  | some _ => if i.s2Hit then some s.owed.length else none
  | none => i.replay

/-- `io.cache.resp.valid`, and the request that is answered. -/
def answered : Option HellaCacheReq := (s.answer i).bind ((s.owedNow i)[·]?)

/-- What is in the second stage. -/
def s2Req : HellaCacheReq := s.s2.getD ((s.answered i).getD i.other)

def resp : HellaCacheResp where
  nack := s.s2Valid && i.s2Nack
  replay := !s.s2.isSome
  typ := (s.s2Req i).typ
  hasData := (s.s2Req i).cmd.isRead || (s.s2Req i).cmd == .xsc
  data := i.data
  dataSubword := i.dataSubword
  tag := (s.s2Req i).tag
  cmd := lowerCmd (s.s2Req i).cmd
  addr := (s.s2Req i).addr
  storeData := (s.s2Req i).data

def input : SimpleHellaInput := ⟨i.requestorReq, i.cacheReady, s.resp i⟩

/-- One cycle. -/
def next : SimpleHellaSystem where
  iface := s.iface.next (s.input i)
  s1 := if i.cacheReady then s.iface.cacheReq (s.input i) else none
  s2 := s.s1.map fun r =>
    { r with data := if r.cmd.isWrite then s.iface.data else i.otherData }
  s2Valid := s.s1.isSome && !(s.resp i).nack
  owed :=
    match s.answer i with
    | some n => (s.owedNow i).eraseIdx n
    | none => s.owedNow i

structure IsReset : Prop where
  iface : s.iface.IsReset
  s1 : s.s1 = none
  s2 : s.s2 = none
  s2Valid : s.s2Valid = false
  owed : s.owed = []

end SimpleHellaSystem

/-! ### What the interface does -/

namespace SimpleHellaCacheIF

variable {s : SimpleHellaCacheIF} {i : SimpleHellaInput}

theorem stashed_eq : s.stashed = s.replayq2.held.head? := by
  rw [stashed, Queue.deq_eq_head]
  exact congrArg _ (List.append_nil _)

/-- The first replay queue never holds a request while another one enters it. What it holds is
shown, and leaves as soon as the cache is ready. -/
theorem replayq1_step {o : Option HellaCacheReq}
    (h : s.replayq1.held ++ (s.replayq1Input i).enq.toList = o.toList) :
    s.replay i = o ∧ (s.next i).replayq1.held = if i.cacheReady then [] else o.toList := by
  have hshown : s.replay i = o := by
    rw [replay, Queue.deq_eq_head, if_pos rfl, h]
    cases o <;> rfl
  have hentered :
      s.replayq1.entered false (s.replayq1Input i) = (s.replayq1Input i).enq.toList := by
    rw [Queue.entered, Queue.enqReady_eq]
    cases henq : (s.replayq1Input i).enq with
    | none => exact ite_self _
    | some r =>
      have hnil : s.replayq1.held = [] := by
        have hlen := congrArg List.length h
        rw [henq, List.length_append] at hlen
        have hle : o.toList.length ≤ 1 := by cases o <;> simp
        rw [← List.length_eq_zero_iff]
        simp only [Option.toList_some, List.length_singleton] at hlen
        omega
      rw [hnil]
      rfl
  have hstep : FifoStep s.replayq1.held (s.replayq1.entered false (s.replayq1Input i))
      (s.replayq1.left true (s.replayq1Input i)) (s.next i).replayq1.held := Queue.step
  rw [FifoStep, hentered, h, Queue.left,
    show s.replayq1.deq true (s.replayq1Input i) = o from hshown] at hstep
  refine ⟨hshown, ?_⟩
  rw [show (s.replayq1Input i).deqReady = i.cacheReady from rfl] at hstep
  cases hready : i.cacheReady with
  | false =>
    rw [hready] at hstep
    exact hstep.symm
  | true =>
    rw [hready] at hstep
    exact (List.self_eq_append_right.mp hstep)

/-- A request enters the second replay queue only when it is empty. -/
theorem replayq2_step (h : (s.replayq2Input i).enq.isSome = true → s.replayq2.held = []) :
    s.replayq2.held ++ (s.replayq2Input i).enq.toList =
      (if (s.replayq2Input i).deqReady then s.stashed.toList else []) ++
        (s.next i).replayq2.held := by
  have hentered :
      s.replayq2.entered false (s.replayq2Input i) = (s.replayq2Input i).enq.toList := by
    rw [Queue.entered, Queue.enqReady_eq]
    cases henq : (s.replayq2Input i).enq with
    | none => exact ite_self _
    | some r =>
      rw [h (by rw [henq]; rfl)]
      rfl
  have hdeq : s.replayq2.deq false (s.replayq2Input i) = s.stashed := by
    rw [stashed_eq, Queue.deq_eq_head]
    exact congrArg _ (List.append_nil _)
  have hstep : FifoStep s.replayq2.held (s.replayq2.entered false (s.replayq2Input i))
      (s.replayq2.left false (s.replayq2Input i)) (s.next i).replayq2.held := Queue.step
  rwa [FifoStep, hentered, Queue.left, hdeq] at hstep

end SimpleHellaCacheIF

/-! ### Where the requests are -/

namespace SimpleHellaSystem

variable (s : SimpleHellaSystem) (i : SimpleHellaCycle)

def ops (l : List HellaCacheReq) : List HellaOp := l.map HellaCacheReq.op

@[simp] theorem ops_nil : ops [] = [] := rfl

/-- What is in the first stage. -/
def s1Ops : List HellaOp := ops (s.s1.map fun r => { r with data := s.iface.data }).toList

/-- What is in the second stage and was not killed. -/
def s2Ops : List HellaOp := if s.s2Valid then ops s.s2.toList else []

/-- What was killed and has reached the second stage. -/
def killedOps : List HellaOp := if s.s2Valid then [] else ops s.s2.toList

/-- What was taken from the client and not performed, the oldest first. -/
def pending : List HellaOp :=
  s.s2Ops ++ s.s1Ops ++ ops s.iface.replayq1.held ++ ops s.iface.replayq2.held ++ s.killedOps

/-- What is taken from the client in this cycle. -/
def acceptedOps : List HellaOp := ops (s.iface.accepted (s.input i)).toList

/-- What is performed in this cycle. -/
def performedOps : List HellaOp := ops (s.performed i).toList

/-- A nack strikes no command of five bits: neither the request that is nacked nor the one behind
it has one. -/
def NackFits : Prop :=
  (s.resp i).nack = true →
    ∀ r, s.s1 = some r ∨ s.s2 = some r → lowerCmd r.cmd = r.cmd

/-- Nothing is sent again. -/
structure Direct : Prop where
  replaying : s.iface.replaying = false
  replayq1 : s.iface.replayq1.held = []
  replayq2 : s.iface.replayq2.held = []
  s3Nack : s.iface.s3Nack = false
  replayingD1 : s.s1.isSome = true → s.iface.replayingD1 = false
  replayingD2 : s.s2.isSome = true → s.iface.replayingD2 = false
  killed : s.killedOps = []

/-- One request is being sent again, and perhaps another one waits for its turn. -/
structure Replaying : Prop where
  replaying : s.iface.replaying = true
  single : (s.s2Ops ++ s.s1Ops ++ ops s.iface.replayq1.held).length = 1
  s3Nack : s.iface.s3Nack = true → s.s2Valid = false
  replayingD1 : s.s1.isSome = true → s.iface.replayingD1 = true
  replayingD2 : s.s2.isSome = true → s.iface.replayingD2 = s.s2Valid
  killed : ∀ r, s.s2 = some r → s.s2Valid = false →
    s.iface.s3Nack = true ∧ s.iface.replayq2.held = [] ∧ lowerCmd r.cmd = r.cmd

/-- **The invariant.** -/
structure Inv : Prop where
  s1ReqFire : s.iface.s1ReqFire = s.s1.isSome
  s2ReqFire : s.iface.s2ReqFire = s.s2.isSome
  s2Valid : s.s2Valid = true → s.s2.isSome = true
  mode : s.Direct ∨ s.Replaying

variable {s i}

theorem next_iface : (s.next i).iface = s.iface.next (s.input i) := rfl

theorem next_s1Ops : (s.next i).s1Ops =
    if i.cacheReady then ops (s.iface.reqArb (s.input i)).toList else [] := by
  show ops ((if i.cacheReady then s.iface.cacheReq (s.input i) else none).map fun r =>
    { r with data := (s.iface.next (s.input i)).data }).toList = _
  rw [SimpleHellaCacheIF.next, SimpleHellaCacheIF.cacheReq]
  cases hready : i.cacheReady with
  | false => rfl
  | true =>
    cases s.iface.reqArb (s.input i) with
    | none => rfl
    | some r =>
      rw [show (s.input i).cacheReady = true from hready]
      rfl

variable {r : HellaCacheReq}

theorem op_stage2 {d d' : ℕ} :
    HellaCacheReq.op { r with data := if r.cmd.isWrite then d else d' } =
      HellaCacheReq.op { r with data := d } := by
  rw [HellaCacheReq.op, HellaCacheReq.op]
  cases r.cmd.isWrite <;> rfl

theorem next_s2 : ops (s.next i).s2.toList = s.s1Ops := by
  show ops (s.s1.map fun r =>
    { r with data := if r.cmd.isWrite then s.iface.data else i.otherData }).toList = _
  rw [s1Ops]
  cases s.s1 with
  | none => rfl
  | some r => exact congrArg (fun x => [x]) op_stage2

theorem next_s2Ops : (s.next i).s2Ops = if (s.resp i).nack then [] else s.s1Ops := by
  rw [s2Ops, next_s2]
  show (if s.s1.isSome && !(s.resp i).nack then s.s1Ops else []) = _
  rw [s1Ops]
  cases (s.resp i).nack <;> cases s.s1 <;> rfl

theorem next_killedOps : (s.next i).killedOps = if (s.resp i).nack then s.s1Ops else [] := by
  rw [killedOps, next_s2]
  show (if s.s1.isSome && !(s.resp i).nack then [] else s.s1Ops) = _
  rw [s1Ops]
  cases (s.resp i).nack <;> cases s.s1 <;> rfl

theorem performedOps_eq : s.performedOps i = if (s.resp i).nack then [] else s.s2Ops := by
  show ops (if s.s2Valid && !i.s2Nack then s.s2 else none).toList =
    if s.s2Valid && i.s2Nack then [] else s.s2Ops
  rw [s2Ops]
  cases s.s2Valid <;> cases i.s2Nack <;> rfl

/-- A request is sent again: it goes to the cache or stays in the first replay queue, and nothing
is taken from the client. -/
theorem sent_again
    (h : s.iface.replayq1.held ++ (s.iface.replayq1Input (s.input i)).enq.toList = [r]) :
    (s.next i).s1Ops ++ ops (s.next i).iface.replayq1.held = [r.op] ∧ s.acceptedOps i = [] := by
  obtain ⟨hshown, hheld⟩ := replayq1_step (o := some r) h
  have hshow : (s.iface.replay (s.input i)).isSome = true := by rw [hshown]; rfl
  refine ⟨?_, ?_⟩
  · rw [next_s1Ops, SimpleHellaCacheIF.reqArb, if_pos hshow, hshown,
      show (s.next i).iface.replayq1.held = _ from hheld]
    show _ ++ ops (if i.cacheReady then [] else [r]) = [r.op]
    cases i.cacheReady <;> rfl
  · rw [acceptedOps, SimpleHellaCacheIF.accepted, SimpleHellaCacheIF.requestorReady, hshow,
      Bool.not_true, Bool.false_and, Bool.and_false]
    rfl

/-- Nothing is sent again: what goes to the cache is what is taken from the client. -/
theorem sent_directly
    (h : s.iface.replayq1.held ++ (s.iface.replayq1Input (s.input i)).enq.toList = []) :
    (s.next i).s1Ops = s.acceptedOps i ∧ (s.next i).iface.replayq1.held = [] := by
  obtain ⟨hshown, hheld⟩ := replayq1_step (o := none) h
  refine ⟨?_, ?_⟩
  · rw [next_s1Ops, acceptedOps, SimpleHellaCacheIF.accepted, SimpleHellaCacheIF.requestorReady,
      SimpleHellaCacheIF.reqArb, hshown]
    show (if i.cacheReady then ops (if s.iface.replayingCmb (s.input i) then none
        else i.requestorReq).toList else []) =
      ops (if !s.iface.replayingCmb (s.input i) && i.cacheReady then i.requestorReq
        else none).toList
    cases s.iface.replayingCmb (s.input i) <;> cases i.cacheReady <;> rfl
  · rw [show (s.next i).iface.replayq1.held = _ from hheld]
    exact ite_self _

/-! ### One cycle -/

theorem next_s2_isSome : (s.next i).s2.isSome = s.s1.isSome := Option.isSome_map

theorem next_s2Valid : (s.next i).s2Valid = (s.s1.isSome && !(s.resp i).nack) := rfl

theorem next_s1_isSome : (s.next i).s1.isSome = s.iface.s0ReqFire (s.input i) := by
  show (if i.cacheReady then s.iface.cacheReq (s.input i) else none).isSome = _
  rw [SimpleHellaCacheIF.s0ReqFire, SimpleHellaCacheIF.cacheReq,
    show (s.input i).cacheReady = i.cacheReady from rfl]
  cases i.cacheReady <;> cases s.iface.reqArb (s.input i) <;> rfl

theorem Inv.next (h : s.Inv) (hmode : (s.next i).Direct ∨ (s.next i).Replaying) :
    (s.next i).Inv where
  s1ReqFire := next_s1_isSome.symm
  s2ReqFire := h.s1ReqFire.trans next_s2_isSome.symm
  s2Valid := by
    rw [next_s2_isSome, next_s2Valid]
    exact fun hvalid => (Bool.and_eq_true_iff.mp hvalid).1
  mode := hmode

/-- While a request is being sent again and stands in the second stage, it is alone. -/
theorem Replaying.alone (h : s.Replaying) (hs2 : s.s2Ops ≠ []) :
    s.s1 = none ∧ s.iface.replayq1.held = [] := by
  have hone := h.single
  have hpos := List.length_pos_iff.mpr hs2
  rw [List.length_append, List.length_append, s1Ops, ops, ops, List.length_map,
    List.length_map] at hone
  refine ⟨?_, List.length_eq_zero_iff.mp (by omega)⟩
  cases hs1 : s.s1 with
  | none => rfl
  | some r =>
    rw [hs1] at hone
    simp only [Option.map_some, Option.toList_some, List.length_singleton] at hone
    omega

/-- A nack: what was in the second stage is sent again, and what was behind it is killed. -/
theorem Inv.next_of_nack (h : s.Inv) (hfits : s.NackFits i) (hnack : (s.resp i).nack = true) :
    FifoStep s.pending (s.acceptedOps i) (s.performedOps i) (s.next i).pending ∧
      (s.next i).Inv := by
  have hvalid : s.s2Valid = true := (Bool.and_eq_true_iff.mp hnack).1
  obtain ⟨r, hr⟩ := Option.isSome_iff_exists.mp (h.s2Valid hvalid)
  have hsunk : s.iface.sunk (s.input i) = false := by
    rw [SimpleHellaCacheIF.sunk, show (s.input i).resp.nack = true from hnack, Bool.not_true,
      Bool.and_false]
  have hcmb : s.iface.replayingCmb (s.input i) = true := by
    rw [SimpleHellaCacheIF.replayingCmb, hsunk, Bool.false_and, if_neg (by simp)]
    exact if_pos hnack
  have hs2 : s.s2Ops = [r.op] := by rw [s2Ops, hvalid, hr]; rfl
  have hne : s.s2Ops ≠ [] := by rw [hs2]; exact List.cons_ne_nil _ _
  have hq1 : s.iface.replayq1.held = [] := by
    rcases h.mode with hmode | hmode
    · exact hmode.replayq1
    · exact (hmode.alone hne).2
  have hs3 : s.iface.s3Nack = false := by
    rcases h.mode with hmode | hmode
    · exact hmode.s3Nack
    · cases hs3 : s.iface.s3Nack with
      | false => rfl
      | true => rw [hmode.s3Nack hs3] at hvalid; cases hvalid
  -- the request that is sent again is the one that was nacked
  have hop : (s.resp i).request.op = r.op := by
    have hreq : s.s2Req i = r := by rw [s2Req, hr]; rfl
    rw [HellaCacheResp.request, resp, hreq, hfits hnack r (.inr hr)]
    rfl
  have hin : s.iface.replayq1.held ++ (s.iface.replayq1Input (s.input i)).enq.toList =
      [(s.resp i).request] := by
    rw [hq1, SimpleHellaCacheIF.replayq1Input, hsunk]
    show (if (s.resp i).nack then some (s.resp i).request else none).toList = _
    rw [hnack]
    rfl
  obtain ⟨hagain, haccepted⟩ := sent_again hin
  have hq2 : (s.next i).iface.replayq2.held = s.iface.replayq2.held := by
    have hstep := replayq2_step (s := s.iface) (i := s.input i) (by
      rw [SimpleHellaCacheIF.replayq2Input, hs3, Bool.and_false]
      simp)
    rw [SimpleHellaCacheIF.replayq2Input, hs3, Bool.and_false, hsunk] at hstep
    rw [next_iface]
    simpa using hstep.symm
  -- either nothing waits for its turn, or nothing is in the first stage
  have hrest : s.s1 = none ∨
      s.iface.replayq2.held = [] ∧ (s.s1.isSome = true → s.iface.replayingD1 = false) := by
    rcases h.mode with hmode | hmode
    · exact .inr ⟨hmode.replayq2, hmode.replayingD1⟩
    · exact .inl (hmode.alone hne).1
  have hvalid' : (s.next i).s2Valid = false := by
    rw [next_s2Valid, hnack, Bool.not_true, Bool.and_false]
  refine ⟨?_, ?_⟩
  · rw [FifoStep, haccepted, performedOps_eq, if_pos hnack, pending, pending, next_s2Ops,
      if_pos hnack, next_killedOps, if_pos hnack, hq2, killedOps, if_pos hvalid, hs2, hq1,
      List.nil_append, List.nil_append, hagain, hop]
    rcases hrest with hnone | ⟨hnil, -⟩
    · simp [s1Ops, hnone]
    · simp [hnil]
  · refine h.next (.inr ⟨hcmb, ?_, ?_, ?_, ?_, ?_⟩)
    · rw [next_s2Ops, if_pos hnack, List.nil_append, hagain]
      rfl
    · intro _
      exact hvalid'
    · intro _
      exact hcmb
    · intro hsome
      rw [next_s2_isSome] at hsome
      rcases hrest with hnone | ⟨-, hd1⟩
      · rw [hnone] at hsome
        cases hsome
      · exact (hd1 hsome).trans hvalid'.symm
    · intro r' hr' _
      obtain ⟨r₁, hr₁, rfl⟩ := Option.map_eq_some_iff.mp hr'
      refine ⟨hnack, ?_, hfits hnack r₁ (.inl hr₁)⟩
      rcases hrest with hnone | ⟨hnil, -⟩
      · rw [hnone] at hr₁
        cases hr₁
      · exact hq2.trans hnil

/-- Nothing is being sent again, and nothing is nacked: the requests move on. -/
theorem Direct.next (h : s.Direct) (hs2 : s.iface.s2ReqFire = s.s2.isSome)
    (hnack : (s.resp i).nack = false) :
    FifoStep s.pending (s.acceptedOps i) (s.performedOps i) (s.next i).pending ∧
      (s.next i).Direct := by
  have hsunk : s.iface.sunk (s.input i) = false := by
    rw [SimpleHellaCacheIF.sunk, hs2]
    cases hsome : s.s2.isSome with
    | false => rfl
    | true => rw [h.replayingD2 hsome]; rfl
  have hcmb : s.iface.replayingCmb (s.input i) = false := by
    rw [SimpleHellaCacheIF.replayingCmb, hsunk, Bool.false_and, if_neg (by simp),
      show (s.input i).resp.nack = false from hnack, if_neg (by simp)]
    exact h.replaying
  have hin : s.iface.replayq1.held ++ (s.iface.replayq1Input (s.input i)).enq.toList = [] := by
    rw [h.replayq1, SimpleHellaCacheIF.replayq1Input, hsunk,
      show (s.input i).resp.nack = false from hnack]
    rfl
  obtain ⟨hsent, hq1⟩ := sent_directly hin
  have hq2 : (s.next i).iface.replayq2.held = [] := by
    have hstep := replayq2_step (s := s.iface) (i := s.input i)
      (fun _ => h.replayq2)
    rw [SimpleHellaCacheIF.replayq2Input, h.s3Nack, Bool.and_false, hsunk, h.replayq2] at hstep
    rw [next_iface]
    simpa using hstep.symm
  have hkilled : (s.next i).killedOps = [] := by rw [next_killedOps, hnack]; rfl
  refine ⟨?_, hcmb, hq1, hq2, hnack, fun _ => hcmb, ?_, hkilled⟩
  · rw [FifoStep, pending, pending, h.killed, hkilled, h.replayq1, h.replayq2, hq1, hq2,
      next_s2Ops, performedOps_eq, hnack, hsent]
    simp
  · rw [next_s2_isSome]
    exact h.replayingD1

section

variable (h : s.Replaying) (hs2 : s.iface.s2ReqFire = s.s2.isSome)
include h hs2

/-- The request that is sent again is performed, and what waits for its turn follows. -/
theorem Replaying.next_of_sunk (hsome : s.s2.isSome = true) (hvalid : s.s2Valid = true)
    (hnack : (s.resp i).nack = false) :
    FifoStep s.pending (s.acceptedOps i) (s.performedOps i) (s.next i).pending ∧
      ((s.next i).Direct ∨ (s.next i).Replaying) := by
  have hne : s.s2Ops ≠ [] := by
    obtain ⟨r, hr⟩ := Option.isSome_iff_exists.mp hsome
    rw [s2Ops, if_pos hvalid, hr]
    exact List.cons_ne_nil _ _
  obtain ⟨hs1, hq1⟩ := h.alone hne
  have hs1Ops : s.s1Ops = [] := by rw [s1Ops, hs1]; rfl
  have hs3 : s.iface.s3Nack = false := by
    cases hs3 : s.iface.s3Nack with
    | false => rfl
    | true => rw [h.s3Nack hs3] at hvalid; cases hvalid
  have hsunk : s.iface.sunk (s.input i) = true := by
    rw [SimpleHellaCacheIF.sunk, hs2, h.replayingD2 hsome, hsome, hvalid,
      show (s.input i).resp.nack = false from hnack]
    rfl
  have hs2' : (s.next i).s2 = none := by
    rw [← Option.not_isSome_iff_eq_none, next_s2_isSome, hs1]
    exact Bool.false_ne_true
  have hkilled' : (s.next i).killedOps = [] := by rw [next_killedOps, hnack]; rfl
  have hs2Ops' : (s.next i).s2Ops = [] := by
    rw [next_s2Ops, hnack]
    exact hs1Ops
  have hstep := replayq2_step (s := s.iface) (i := s.input i) (by
    rw [SimpleHellaCacheIF.replayq2Input, hs3, Bool.and_false]
    exact fun h => absurd h Bool.false_ne_true)
  rw [SimpleHellaCacheIF.replayq2Input, hs3, Bool.and_false, hsunk, Bool.true_and,
    ← next_iface] at hstep
  cases hq2 : s.iface.replayq2.held with
  | nil =>
    have hstashed : s.iface.stashed = none := by rw [SimpleHellaCacheIF.stashed_eq, hq2]; rfl
    have hcmb : s.iface.replayingCmb (s.input i) = false := by
      rw [SimpleHellaCacheIF.replayingCmb, hsunk, hstashed]
      rfl
    have hin : s.iface.replayq1.held ++ (s.iface.replayq1Input (s.input i)).enq.toList = [] := by
      rw [hq1, SimpleHellaCacheIF.replayq1Input, hsunk, hstashed,
        show (s.input i).resp.nack = false from hnack]
      rfl
    obtain ⟨hsent, hq1'⟩ := sent_directly hin
    have hq2' : (s.next i).iface.replayq2.held = [] := by
      rw [hstashed, hq2] at hstep
      exact hstep.symm
    refine ⟨?_, .inl ⟨hcmb, hq1', hq2', hnack, fun _ => hcmb, ?_, hkilled'⟩⟩
    · rw [FifoStep, pending, pending, killedOps, if_pos hvalid, hkilled', hs1Ops, hq1, hq2, hq1',
        hq2', hs2Ops', performedOps_eq, hnack, hsent]
      simp
    · rw [hs2']
      exact fun h => absurd h Bool.false_ne_true
  | cons b l =>
    have hstashed : s.iface.stashed = some b := by rw [SimpleHellaCacheIF.stashed_eq, hq2]; rfl
    have hcmb : s.iface.replayingCmb (s.input i) = true := by
      rw [SimpleHellaCacheIF.replayingCmb, hstashed, Option.isSome_some, Bool.not_true,
        Bool.and_false, if_neg (by simp), show (s.input i).resp.nack = false from hnack]
      exact h.replaying
    have hin : s.iface.replayq1.held ++ (s.iface.replayq1Input (s.input i)).enq.toList = [b] := by
      rw [hq1, SimpleHellaCacheIF.replayq1Input, hsunk, hstashed]
      rfl
    obtain ⟨hagain, haccepted⟩ := sent_again hin
    have hq2' : (s.next i).iface.replayq2.held = l := by
      rw [hstashed, hq2] at hstep
      simpa using hstep.symm
    refine ⟨?_, .inr ⟨hcmb, ?_, fun hs3' => ?_, fun _ => hcmb, ?_, ?_⟩⟩
    · rw [FifoStep, pending, pending, killedOps, if_pos hvalid, hkilled', hs1Ops, hq1, hq2, hq2',
        hs2Ops', List.nil_append, hagain, performedOps_eq, hnack, haccepted]
      simp [ops]
    · rw [hs2Ops', List.nil_append, hagain]
      rfl
    · rw [next_s2Valid, hs1]
      rfl
    · rw [hs2']
      exact fun h => absurd h Bool.false_ne_true
    · rw [hs2']
      intro r hr
      cases hr

/-- What was killed is not taken for the request that is sent again. -/
theorem Replaying.not_sunk (hvalid : s.s2Valid = false) : s.iface.sunk (s.input i) = false := by
  rw [SimpleHellaCacheIF.sunk, hs2]
  cases hsome : s.s2.isSome with
  | false => rfl
  | true => rw [h.replayingD2 hsome, hvalid]; rfl

theorem Replaying.enq_eq_none
    (hvalid : s.s2Valid = false) : (s.iface.replayq1Input (s.input i)).enq = none := by
  have hnack : (s.input i).resp.nack = false := by
    show (s.s2Valid && i.s2Nack) = false
    rw [hvalid, Bool.false_and]
  rw [SimpleHellaCacheIF.replayq1Input, h.not_sunk hs2 hvalid, hnack]
  rfl

/-- The request that is sent again is on its way or waits for the cache. What was killed joins the
second replay queue. -/
theorem Replaying.next_of_waiting (hvalid : s.s2Valid = false) :
    FifoStep s.pending (s.acceptedOps i) (s.performedOps i) (s.next i).pending ∧
      (s.next i).Replaying := by
  have hnack : (s.resp i).nack = false := by
    show (s.s2Valid && i.s2Nack) = false
    rw [hvalid, Bool.false_and]
  have hsunk := h.not_sunk (i := i) hs2 hvalid
  have henq := h.enq_eq_none (i := i) hs2 hvalid
  have hcmb : s.iface.replayingCmb (s.input i) = true := by
    rw [SimpleHellaCacheIF.replayingCmb, hsunk, Bool.false_and, if_neg (by simp),
      show (s.input i).resp.nack = false from hnack, if_neg (by simp)]
    exact h.replaying
  have hs2Ops : s.s2Ops = [] := by rw [s2Ops, hvalid]; rfl
  have hkilled' : (s.next i).killedOps = [] := by rw [next_killedOps, hnack]; rfl
  have hs2Ops' : (s.next i).s2Ops = s.s1Ops := by rw [next_s2Ops, hnack]; rfl
  have hperformed : s.performedOps i = [] := by
    rw [performedOps_eq, hnack, hs2Ops]
    rfl
  -- the first replay queue gives what it holds to the cache, or keeps it
  have hq1 : (s.next i).s1Ops ++ ops (s.next i).iface.replayq1.held = ops s.iface.replayq1.held ∧
      s.acceptedOps i = [] := by
    cases hheld : s.iface.replayq1.held with
    | nil =>
      obtain ⟨hsent, hq1'⟩ := sent_directly (s := s) (i := i) (by rw [hheld, henq]; rfl)
      have haccepted : s.acceptedOps i = [] := by
        rw [acceptedOps, SimpleHellaCacheIF.accepted, SimpleHellaCacheIF.requestorReady, hcmb]
        rfl
      rw [hsent, hq1', haccepted]
      exact ⟨rfl, rfl⟩
    | cons r l =>
      have hnil : l = [] := by
        have hle : s.iface.replayq1.held.length ≤ 1 := Queue.length_held_le
        rw [hheld, List.length_cons] at hle
        exact List.length_eq_zero_iff.mp (by omega)
      subst hnil
      exact sent_again (by rw [hheld, henq]; rfl)
  obtain ⟨hagain, haccepted⟩ := hq1
  -- what was killed goes to the second replay queue
  have hq2 : ops (s.next i).iface.replayq2.held = ops s.iface.replayq2.held ++ s.killedOps := by
    have hkilled : ∀ r, s.s2 = some r → s.iface.s3Nack = true ∧ s.iface.replayq2.held = [] ∧
        lowerCmd r.cmd = r.cmd := fun r hr => h.killed r hr hvalid
    have hstep := replayq2_step (s := s.iface) (i := s.input i) (by
      rw [SimpleHellaCacheIF.replayq2Input, hs2]
      cases hr : s.s2 with
      | none => nofun
      | some r => exact fun _ => (hkilled r hr).2.1)
    rw [SimpleHellaCacheIF.replayq2Input, hsunk, hs2, ← next_iface] at hstep
    rw [killedOps, hvalid]
    cases hr : s.s2 with
    | none =>
      rw [hr] at hstep
      have hsame : s.iface.replayq2.held = (s.next i).iface.replayq2.held := by
        simpa using hstep
      rw [hsame]
      exact (List.append_nil _).symm
    | some r =>
      obtain ⟨hs3, hnil, hlower⟩ := hkilled r hr
      have hop : (s.resp i).request.op = r.op := by
        have hreq : s.s2Req i = r := by rw [s2Req, hr]; rfl
        rw [HellaCacheResp.request, resp, hreq, hlower]
        rfl
      rw [hr, hs3, hnil] at hstep
      have hone : (s.next i).iface.replayq2.held = [(s.input i).resp.request] := by
        simpa using hstep.symm
      rw [hone, hnil]
      exact congrArg (fun x => [x]) hop
  refine ⟨?_, hcmb, ?_, ?_, fun _ => hcmb, ?_, ?_⟩
  · rw [FifoStep, pending, pending, hs2Ops, hs2Ops', hkilled', haccepted, hperformed, hq2,
      ← hagain]
    simp
  · have hsingle := h.single
    rw [hs2Ops, List.nil_append, ← hagain] at hsingle
    rwa [hs2Ops', List.append_assoc]
  · intro hs3'
    rw [show (s.next i).iface.s3Nack = false from hnack] at hs3'
    cases hs3'
  · intro hsome
    rw [next_s2_isSome] at hsome
    rw [next_s2Valid, hsome, hnack]
    exact h.replayingD1 hsome
  · intro r hr hvalid'
    rw [next_s2Valid, ← next_s2_isSome (i := i), hr, hnack] at hvalid'
    cases hvalid'

end

/-- **One cycle keeps the invariant**, and no request is lost, duplicated or overtaken. -/
theorem Inv.step (h : s.Inv) (hfits : s.NackFits i) :
    FifoStep s.pending (s.acceptedOps i) (s.performedOps i) (s.next i).pending ∧
      (s.next i).Inv := by
  cases hnack : (s.resp i).nack with
  | true => exact h.next_of_nack hfits hnack
  | false =>
    rcases h.mode with hmode | hmode
    · obtain ⟨hstep, hmode'⟩ := hmode.next h.s2ReqFire hnack
      exact ⟨hstep, h.next (.inl hmode')⟩
    · cases hvalid : s.s2Valid with
      | true =>
        obtain ⟨hstep, hmode'⟩ :=
          hmode.next_of_sunk h.s2ReqFire (h.s2Valid hvalid) hvalid hnack
        exact ⟨hstep, h.next hmode'⟩
      | false =>
        obtain ⟨hstep, hmode'⟩ := hmode.next_of_waiting h.s2ReqFire hvalid
        exact ⟨hstep, h.next (.inr hmode')⟩

/-! ### Answers -/

theorem resp_tag (h : s.answered i = some r) : (s.resp i).tag = r.tag := by
  show (s.s2Req i).tag = r.tag
  rw [s2Req, h]
  cases hs2 : s.s2 with
  | none => rfl
  | some r₂ =>
    rw [answered, answer, hs2] at h
    cases hhit : i.s2Hit with
    | false => rw [hhit] at h; cases h
    | true =>
      rw [hhit, if_pos rfl, Option.bind_some, owedNow,
        List.getElem?_append_right (Nat.le_refl _), Nat.sub_self, performed, hs2] at h
      cases hvalid : (s.s2Valid && !i.s2Nack) with
      | false => rw [hvalid] at h; cases h
      | true =>
        rw [hvalid] at h
        cases h
        rfl

theorem owed_step :
    (s.owed ++ (s.performed i).toList).Perm ((s.answered i).toList ++ (s.next i).owed) := by
  show (s.owedNow i).Perm ((s.answered i).toList ++
    match s.answer i with
    | some n => (s.owedNow i).eraseIdx n
    | none => s.owedNow i)
  rw [answered]
  cases s.answer i with
  | none => exact .refl _
  | some n =>
    show (s.owedNow i).Perm ((s.owedNow i)[n]?.toList ++ (s.owedNow i).eraseIdx n)
    by_cases hn : n < (s.owedNow i).length
    · rw [List.getElem?_eq_getElem hn]
      exact (List.getElem_cons_eraseIdx_perm hn).symm
    · rw [List.getElem?_eq_none (Nat.le_of_not_lt hn),
        List.eraseIdx_of_length_le (Nat.le_of_not_lt hn)]
      exact .refl _

/-! ### Runs -/

theorem IsReset.inv (h : s.IsReset) : s.Inv where
  s1ReqFire := by rw [h.iface.s1ReqFire, h.s1]; rfl
  s2ReqFire := by rw [h.iface.s2ReqFire, h.s2]; rfl
  s2Valid := by
    rw [h.s2Valid]
    simp
  mode := .inl
    { replaying := h.iface.replaying
      replayq1 := h.iface.replayq1.held
      replayq2 := h.iface.replayq2.held
      s3Nack := h.iface.s3Nack
      replayingD1 := fun _ => h.iface.replayingD1
      replayingD2 := fun _ => h.iface.replayingD2
      killed := by rw [killedOps, h.s2]; exact ite_self _ }

theorem IsReset.pending (h : s.IsReset) : s.pending = [] := by
  rw [SimpleHellaSystem.pending, s2Ops, s1Ops, killedOps, h.s1, h.s2, h.s2Valid,
    h.iface.replayq1.held, h.iface.replayq2.held]
  rfl

end SimpleHellaSystem

/-- What happened so far: the requests that were taken and performed, and, for each response, the
request it answers and the tag it was delivered with. -/
structure SimpleHellaLog where
  requests : FifoLog HellaOp
  responses : List (HellaOp × ℕ)

namespace SimpleHellaSystem

/-- The log goes on. -/
def logNext (s : SimpleHellaSystem) (i : SimpleHellaCycle) (log : SimpleHellaLog) :
    SimpleHellaLog where
  requests := log.requests.note (s.acceptedOps i) (s.performedOps i)
  responses := log.responses ++
    (s.answered i).toList.map fun r => (r.op, (SimpleHellaCacheIF.requestorResp (s.input i)).tag)

/-- All runs. -/
def allRuns : Machine (SimpleHellaSystem × SimpleHellaLog) SimpleHellaCycle :=
  (Machine.clocked IsReset next).observe ⟨⟨[], []⟩, []⟩ logNext

/-- The runs in which no nack strikes a command of five bits. -/
def machine : Machine (SimpleHellaSystem × SimpleHellaLog) SimpleHellaCycle :=
  allRuns.restrict fun x i => x.1.NackFits i

variable {s : SimpleHellaSystem} {i : SimpleHellaCycle} {log : SimpleHellaLog}

/-- The responses: each has the tag of its request, and what was performed is answered or owed. -/
structure Answers (s : SimpleHellaSystem) (log : SimpleHellaLog) : Prop where
  tag : ∀ x ∈ log.responses, x.2 = x.1.tag
  performed : log.requests.left.Perm (log.responses.map Prod.fst ++ ops s.owed)

theorem Answers.next (h : Answers s log) : Answers (s.next i) (s.logNext i log) where
  tag := by
    intro x hx
    rcases List.mem_append.mp hx with hx | hx
    · exact h.tag x hx
    · obtain ⟨r, hr, rfl⟩ := List.mem_map.mp hx
      exact resp_tag (Option.mem_toList.mp hr)
  performed := by
    show (log.requests.left ++ s.performedOps i).Perm _
    have hfst : (s.logNext i log).responses.map Prod.fst =
        log.responses.map Prod.fst ++ ops (s.answered i).toList := by
      rw [logNext, List.map_append, List.map_map]
      rfl
    have howed : (ops s.owed ++ s.performedOps i).Perm
        (ops (s.answered i).toList ++ ops (s.next i).owed) := by
      rw [performedOps, ops, ops, ops, ops, ← List.map_append, ← List.map_append]
      exact owed_step.map _
    rw [hfst, List.append_assoc]
    refine (h.performed.append_right _).trans ?_
    rw [List.append_assoc]
    exact howed.append_left _

theorem reachable_inv (h : machine.Reachable (s, log)) :
    s.Inv ∧ log.requests.Conserves s.pending ∧ Answers s log := by
  refine Machine.invariant (I := fun x : SimpleHellaSystem × SimpleHellaLog =>
    x.1.Inv ∧ x.2.requests.Conserves x.1.pending ∧ Answers x.1 x.2) ?_ ?_ (s, log) h
  · rintro ⟨s, log⟩ ⟨hs, rfl⟩
    refine ⟨hs.inv, hs.pending.symm, (by simp), ?_⟩
    show List.Perm [] ([] ++ ops s.owed)
    rw [hs.owed]
    exact .nil
  · rintro ⟨s, log⟩ i ⟨s', log'⟩ _ ⟨hinv, hlog, hanswers⟩ ⟨hfits, rfl, rfl⟩
    obtain ⟨hstep, hinv'⟩ := hinv.step hfits
    exact ⟨hinv', hlog.note hstep, hanswers.next⟩

/-! ### Progress -/

variable {x : HellaOp} {l : List HellaOp}

/-- The oldest request is in one of the two stages, or it waits in the first replay queue. -/
theorem Inv.oldest (h : s.Inv) (hpending : s.pending = x :: l) :
    s.s2Ops = [x] ∨ s.s2Ops = [] ∧ (s.s1Ops = [x] ∨
      s.s1Ops = [] ∧ ∃ r, s.iface.replayq1.held = [r] ∧ r.op = x) := by
  rw [pending] at hpending
  cases hs2 : s.s2Ops with
  | cons y m =>
    left
    rw [hs2] at hpending
    have hlen : s.s2Ops.length ≤ 1 := by
      rw [s2Ops]
      cases s.s2Valid <;> cases s.s2 <;> simp [ops]
    rw [hs2, List.length_cons] at hlen
    rw [List.length_eq_zero_iff.mp (by omega : m.length = 0), (List.cons.inj hpending).1]
  | nil =>
    refine .inr ⟨rfl, ?_⟩
    rw [hs2] at hpending
    cases hs1 : s.s1Ops with
    | cons y m =>
      left
      rw [hs1] at hpending
      have hlen : s.s1Ops.length ≤ 1 := by
        rw [s1Ops]
        cases s.s1 <;> simp [ops]
      rw [hs1, List.length_cons] at hlen
      rw [List.length_eq_zero_iff.mp (by omega : m.length = 0), (List.cons.inj hpending).1]
    | nil =>
      refine .inr ⟨rfl, ?_⟩
      rw [hs1] at hpending
      rcases h.mode with hmode | hmode
      · rw [hmode.replayq1, hmode.replayq2, hmode.killed] at hpending
        cases hpending
      · have hone := hmode.single
        rw [hs2, hs1, List.nil_append, List.nil_append, ops, List.length_map,
          List.length_eq_one_iff] at hone
        obtain ⟨r, hr⟩ := hone
        rw [hr] at hpending
        exact ⟨r, hr, (List.cons.inj hpending).1⟩

/-- The cache is ready and nacks nothing. -/
structure Smooth (i : SimpleHellaCycle) : Prop where
  ready : i.cacheReady = true
  noNack : i.s2Nack = false

theorem Smooth.nack (h : Smooth i) : (s.resp i).nack = false := by
  show (s.s2Valid && i.s2Nack) = false
  rw [h.noNack, Bool.and_false]

theorem Inv.oldest_moves (h : s.Inv) (hi : Smooth i) (hpending : s.pending = x :: l) :
    s.performedOps i = [x] ∨ s.performedOps i = [] ∧
      ((s.next i).s2Ops = [x] ∨ (s.next i).s2Ops = [] ∧ (s.next i).s1Ops = [x]) := by
  rw [performedOps_eq, next_s2Ops, hi.nack]
  rcases h.oldest hpending with hs2 | ⟨hs2, hs1 | ⟨hs1, r, hr, rfl⟩⟩
  · exact .inl hs2
  · exact .inr ⟨hs2, .inl hs1⟩
  · refine .inr ⟨hs2, .inr ⟨hs1, ?_⟩⟩
    have hvalid : s.s2Valid = false := by
      cases hvalid : s.s2Valid with
      | false => rfl
      | true =>
        obtain ⟨r₂, hr₂⟩ := Option.isSome_iff_exists.mp (h.s2Valid hvalid)
        rw [s2Ops, hvalid, hr₂] at hs2
        cases hs2
    have hin : s.iface.replayq1.held ++ (s.iface.replayq1Input (s.input i)).enq.toList = [r] := by
      rcases h.mode with hmode | hmode
      · rw [hmode.replayq1] at hr
        cases hr
      · rw [hr, hmode.enq_eq_none h.s2ReqFire hvalid]
        rfl
    have hgone : (s.next i).iface.replayq1.held = [] := by
      have hheld := (replayq1_step (o := some r) hin).2
      rwa [show (s.input i).cacheReady = true from hi.ready] at hheld
    have hagain := (sent_again hin).1
    rwa [hgone, ops_nil, List.append_nil] at hagain

/-- Three cycles in which the cache is ready and nacks nothing do for the oldest request. -/
theorem Inv.oldest_performed (h : s.Inv) (hpending : s.pending = x :: l)
    {i₀ i₁ i₂ : SimpleHellaCycle} (h₀ : Smooth i₀) (h₁ : Smooth i₁) (h₂ : Smooth i₂) :
    x ∈ s.performedOps i₀ ++ (s.next i₀).performedOps i₁ ++
      ((s.next i₀).next i₁).performedOps i₂ := by
  have hthen : (s.next i₀).performedOps i₁ = (s.next i₀).s2Ops := by
    rw [performedOps_eq, h₁.nack]
    rfl
  have hlast : ((s.next i₀).next i₁).performedOps i₂ = (s.next i₀).s1Ops := by
    rw [performedOps_eq, h₂.nack, next_s2Ops, h₁.nack]
    rfl
  rw [hthen, hlast]
  rcases h.oldest_moves h₀ hpending with hnow | ⟨-, hs2 | ⟨-, hs1⟩⟩
  · simp [hnow]
  · simp [hs2]
  · simp [hs1]

def reset : SimpleHellaSystem where
  iface := ⟨false, ⟨⟨0, 0, false⟩, fun _ => ⟨false, 0, false, 0, 0, 0, .xrd⟩⟩,
    ⟨⟨0, 0, false⟩, fun _ => ⟨false, 0, false, 0, 0, 0, .xrd⟩⟩,
    false, false, false, false, false, 0⟩
  s1 := none
  s2 := none
  s2Valid := false
  owed := []

theorem isReset_reset : reset.IsReset :=
  ⟨⟨rfl, rfl, rfl, rfl, rfl, rfl, rfl, rfl⟩, rfl, rfl, rfl, rfl⟩

theorem reachable_reset : allRuns.Reachable (reset, ⟨⟨[], []⟩, []⟩) := .init ⟨isReset_reset, rfl⟩

/-- **Each request is performed once, in order.** In every run in which no nack strikes a command of
five bits, what was taken from the client is what was performed followed by what is pending, in
this order; each response that is delivered has the tag of the request it answers, and what was
performed is answered once or still owed. The oldest pending request is performed as soon as the
cache is ready and nacks nothing for three cycles. -/
theorem replay_exact : ∀ s log, machine.Reachable (s, log) →
    log.requests.entered = log.requests.left ++ s.pending ∧
    (∀ x ∈ log.responses, x.2 = x.1.tag) ∧
    log.requests.left.Perm (log.responses.map Prod.fst ++ ops s.owed) ∧
    ∀ x l, s.pending = x :: l → ∀ i₀ i₁ i₂, Smooth i₀ → Smooth i₁ → Smooth i₂ →
      x ∈ s.performedOps i₀ ++ (s.next i₀).performedOps i₁ ++
        ((s.next i₀).next i₁).performedOps i₂ := by
  intro s log h
  obtain ⟨hinv, hlog, hanswers⟩ := reachable_inv h
  refine ⟨hlog, hanswers.tag, hanswers.performed, fun x l hpending i₀ i₁ i₂ h₀ h₁ h₂ => ?_⟩
  exact hinv.oldest_performed hpending h₀ h₁ h₂

instance : Decidable (s.NackFits i) :=
  decidable_of_iff ((s.resp i).nack = true →
      (∀ r ∈ s.s1, lowerCmd r.cmd = r.cmd) ∧ ∀ r ∈ s.s2, lowerCmd r.cmd = r.cmd)
    ⟨fun h hn r hr => hr.elim ((h hn).1 r) ((h hn).2 r),
      fun h hn => ⟨fun r hr => h hn r (.inl hr), fun r hr => h hn r (.inr hr)⟩⟩

/-- A cycle in which the cache is ready and answers what it performs. -/
def answering : SimpleHellaCycle :=
  ⟨none, true, false, true, none, ⟨false, 0, false, 0, 0, 0, .xrd⟩, 5, 0, 0⟩

/-- A store is nacked while a load is behind it. -/
def storeNacked : List SimpleHellaCycle :=
  [{ answering with requestorReq := some ⟨false, 3, false, 64, 7, 9, .xwr⟩ },
    { answering with requestorReq := some ⟨false, 3, false, 128, 0, 4, .xrd⟩ },
    { answering with s2Nack := true }]

/-- What that comes to, and what becomes of it in `n` cycles more. -/
def afterStoreNacked (n : ℕ) : SimpleHellaSystem × SimpleHellaLog :=
  Machine.cycles next logNext (storeNacked ++ List.replicate n answering) (reset, ⟨⟨[], []⟩, []⟩)

/-- Both are pending then, and both are performed and answered five cycles later. -/
theorem replay_exact_nacked :
    (afterStoreNacked 0).1.pending = [⟨.xwr, 3, 64, 9, some 7⟩, ⟨.xrd, 3, 128, 4, none⟩] ∧
    (afterStoreNacked 0).2.requests.entered =
      (afterStoreNacked 0).2.requests.left ++ (afterStoreNacked 0).1.pending ∧
    (afterStoreNacked 5).1.pending = [] ∧
    (afterStoreNacked 5).2.requests.entered =
      (afterStoreNacked 5).2.requests.left ++ (afterStoreNacked 5).1.pending ∧
    (afterStoreNacked 5).2.responses.length = 2 ∧
    ∀ x ∈ (afterStoreNacked 5).2.responses, x.2 = x.1.tag := by
  have hstart : machine.Reachable (reset, ⟨⟨[], []⟩, []⟩) := .init ⟨isReset_reset, rfl⟩
  have hreach (n : ℕ) (hok : Machine.CyclesOk (fun x i => NackFits x.1 i) next logNext
      (storeNacked ++ List.replicate n answering) (reset, ⟨⟨[], []⟩, []⟩)) :
      machine.Reachable (afterStoreNacked n) := Machine.reachable_restrict_cycles hstart _ hok
  have hpending : (afterStoreNacked 0).1.pending =
      [⟨.xwr, 3, 64, 9, some 7⟩, ⟨.xrd, 3, 128, 4, none⟩] := by decide
  obtain ⟨horder, -, -, -⟩ := replay_exact _ _ (hreach 0 (by decide))
  obtain ⟨horder', htag, -, -⟩ := replay_exact _ _ (hreach 5 (by decide))
  exact ⟨hpending, horder, by decide, horder', by decide, htag⟩

/-! ### A command of five bits -/

/-- A client asks for a line to be written back, and is nacked once. -/
def cleanNacked : List SimpleHellaCycle :=
  let idle : SimpleHellaCycle :=
    ⟨none, true, false, true, none, ⟨false, 0, false, 0, 0, 0, .xrd⟩, 5, 0, 0⟩
  let clean : HellaCacheReq := ⟨false, 3, false, 64, 0, 9, .cln⟩
  [{ idle with requestorReq := some clean }, idle, { idle with s2Nack := true }, idle, idle]

/-- What the run comes to. -/
def afterCleanNacked : SimpleHellaSystem × SimpleHellaLog :=
  Machine.cycles next logNext cleanNacked (reset, ⟨⟨[], []⟩, []⟩)

/-- **After a nack, the order to write a line back is sent again as a store.** -/
theorem clean_sent_as_store : allRuns.Reachable afterCleanNacked ∧
    afterCleanNacked.2.requests.entered = [⟨.cln, 3, 64, 9, none⟩] ∧
    afterCleanNacked.2.requests.left = [⟨.xwr, 3, 64, 9, some 5⟩] ∧
    ¬ afterCleanNacked.2.requests.left <+: afterCleanNacked.2.requests.entered :=
  ⟨Machine.reachable_cycles reachable_reset cleanNacked, by decide, by decide,
    by decide⟩

end SimpleHellaSystem

end Rocket

end RiscvSoc
