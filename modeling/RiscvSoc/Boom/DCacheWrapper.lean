import RiscvSoc.Boom.RobWindow

/-!
# The wrapper around the data cache

`LoadReqSlot` and `DCacheWrapper` from `boom/src/main/scala/dcachewrapper.scala`, one clock cycle at
a time. The wrapper keeps the micro-op of each load it has sent to the cache in a slot, whose number
is the tag of the request. A load that is killed keeps its slot, so that the tag is not used for
another one before the cache has answered, and the answer is not shown to the core.

The cache answers a request after two cycles at the earliest. What it does with it in these two
cycles is in registers here: a load the core takes back is in the first stage, and one the cache
refuses is in the second.

## What is left out

Addresses, data, the exceptions of the cache, `nack.cache_nack` and the debug ports. The prefetcher
is disabled in the source, so a request to the cache is one of the core.
-/

namespace RiscvSoc

variable {c : BOOMConf} {n : ℕ}

/-! ### `LoadReqSlot` -/

structure LoadReqSlot (c : BOOMConf) where
  valid : Bool
  wasKilled : Bool
  uop : RobUop c

/-- What a slot sees in one cycle. -/
structure LoadReqSlotInput (c : BOOMConf) where
  wen : Bool
  inUop : RobUop c
  clear : Bool
  brinfo : Option (BrResolutionInfo c)
  flushPipe : Bool

namespace LoadReqSlot

variable (s : LoadReqSlot c) (i : LoadReqSlotInput c)

/-- `bmask_match`. -/
def bmaskMatch (brinfo : Option (BrResolutionInfo c)) : Bool :=
  brinfo.any fun b => maskMatch b.mask s.uop.brMask

/-- `br_killed`. -/
def brKilled (brinfo : Option (BrResolutionInfo c)) : Bool :=
  isKilledByBranch brinfo s.uop.brMask

/-- `br_killed_incoming`. -/
def brKilledIncoming : Bool := isKilledByBranch i.brinfo i.inUop.brMask

/-- One cycle. -/
def next : LoadReqSlot c where
  valid := if i.clear && s.valid then false else if i.wen then true else s.valid
  wasKilled :=
    if i.clear && s.valid then s.wasKilled
    else if i.wen then i.flushPipe || brKilledIncoming i
    else if i.flushPipe || s.brKilled i.brinfo then true
    else s.wasKilled
  uop :=
    let u := if i.clear && s.valid then s.uop else if i.wen then i.inUop else s.uop
    -- the assignment to `uop.br_mask` is the later one
    if i.wen then u.withMask (getNewBrMask i.brinfo i.inUop.brMask)
    else if s.bmaskMatch i.brinfo then u.withMask (getNewBrMask i.brinfo s.uop.brMask)
    else u

/-- `io.was_killed`. -/
def killed (brinfo : Option (BrResolutionInfo c)) : Bool := s.wasKilled || s.brKilled brinfo

end LoadReqSlot

/-! ### `DCacheWrapper` -/

structure DCacheWrapper (c : BOOMConf) (n : ℕ) where
  inflightLoadBuffer : Fin n → LoadReqSlot c
  m1InflightTag : Fin n
  m2InflightTag : Fin n
  /-- `Reg(next=(enq_val && enq_rdy))`, and the register behind it. -/
  m1Enq : Bool
  m2Enq : Bool
  m1ReqUop : RobUop c
  m2ReqUop : RobUop c
  iflbKill : Bool
  /-- The registers behind `io.core.req.bits.kill` and `iflb_kill`. -/
  killReg : Bool
  iflbKillReg : Bool
  /-- The core's request met a cache that was ready: one cycle ago, and two. -/
  m1Fired : Bool
  m2Fired : Bool
  /-- The core's request met a cache that was not ready. -/
  m1Refused : Bool
  m2Refused : Bool

/-- What the core and the cache drive in one cycle. -/
structure DCacheWrapperInput (c : BOOMConf) (n : ℕ) where
  reqValid : Bool
  reqUop : RobUop c
  /-- `io.core.req.bits.kill`: the request of the last cycle is taken back. -/
  kill : Bool
  brinfo : Option (BrResolutionInfo c)
  flushPipe : Bool
  cacheReady : Bool
  cacheNack : Bool
  /-- The cache's `resp`: the tag and `has_data`. -/
  cacheResp : Option (Fin n × Bool)

namespace DCacheWrapper

variable [NeZero n] (s : DCacheWrapper c n) (i : DCacheWrapperInput c n)

/-- The tag of `nbdcache_load_ack`, and the option around it. -/
def loadAck : Option (Fin n) := (i.cacheResp.filter fun r => r.2).map fun r => r.1

def enqVal : Bool := i.reqValid && i.reqUop.isLoad

/-- `enq_idx`: the lowest slot that is free. -/
def enqIdx : Fin n := (priorityEncoder fun k => !(s.inflightLoadBuffer k).valid).getD 0

def enqRdy : Bool := orR fun k => !(s.inflightLoadBuffer k).valid && i.cacheReady

def enqCanOccur : Bool := enqVal i && s.enqRdy i

/-- The request of the last cycle is killed in the cache. -/
def cacheKill : Bool := i.kill || s.iflbKill

def clear (k : Fin n) : Bool :=
  decide (loadAck i = some k) ||
    (i.cacheNack && s.m2ReqUop.isLoad && decide (s.m2InflightTag = k) && s.m2Enq) ||
    (i.kill && decide (s.m1InflightTag = k) && s.m1Enq)

def slotInput (k : Fin n) : LoadReqSlotInput c where
  wen := s.enqCanOccur i && decide (s.enqIdx = k)
  inUop := i.reqUop
  clear := s.clear i k
  brinfo := i.brinfo
  flushPipe := i.flushPipe

/-- `was_store`. -/
def wasStore : Bool := !s.m2ReqUop.isLoad && s.m2Fired

/-- `io.core.req.ready`. -/
def reqReady : Bool := s.enqRdy i && i.cacheReady

/-- `io.core.resp.valid`. -/
def respValid : Bool :=
  match loadAck i with
  | some k => !(s.inflightLoadBuffer k).killed i.brinfo
  | none => s.wasStore && !i.cacheNack

/-- `io.core.resp.bits.uop`. -/
def respUop : RobUop c :=
  match loadAck i with
  | some k => (s.inflightLoadBuffer k).uop
  | none => s.m2ReqUop

/-- `io.core.nack.valid`. -/
def nackValid : Bool := i.cacheNack || s.killReg || s.iflbKillReg || s.m2Refused

/-- `io.core.nack.isload` and `io.core.nack.lsu_idx`. -/
def nackIsload : Bool := s.m2ReqUop.isLoad

def nackLsuIdx : Fin c.lsuEntries :=
  if s.m2ReqUop.isLoad then s.m2ReqUop.ldqIdx else s.m2ReqUop.stqIdx

/-- One cycle. -/
def next : DCacheWrapper c n where
  inflightLoadBuffer k := (s.inflightLoadBuffer k).next (s.slotInput i k)
  m1InflightTag := s.enqIdx
  m2InflightTag := s.m1InflightTag
  m1Enq := s.enqCanOccur i
  m2Enq := s.m1Enq
  m1ReqUop := i.reqUop
  m2ReqUop := s.m1ReqUop
  iflbKill := enqVal i && !s.enqRdy i
  killReg := i.kill
  iflbKillReg := s.iflbKill
  m1Fired := i.reqValid && i.cacheReady
  m2Fired := s.m1Fired
  m1Refused := i.reqValid && !i.cacheReady
  m2Refused := s.m1Refused

/-- Reset: the slots are free, and no other register is initialised. -/
def IsReset (s : DCacheWrapper c n) : Prop := ∀ k, (s.inflightLoadBuffer k).valid = false

/-! ### One slot in one cycle -/

variable {s i}

omit [NeZero n] in
/-- A load is accepted if the wrapper says that it is ready. -/
theorem enqCanOccur_eq :
    s.enqCanOccur i = (i.reqValid && i.reqUop.isLoad && s.reqReady i) := by
  have hready : s.reqReady i = s.enqRdy i := by
    rw [reqReady, Bool.and_eq_left_iff_imp]
    intro hrdy
    obtain ⟨k, hk⟩ := orR_eq_true.mp hrdy
    exact (Bool.and_eq_true_iff.mp hk).2
  rw [hready, enqCanOccur, enqVal]

theorem free_of_enqCanOccur (h : s.enqCanOccur i = true) :
    i.reqValid = true ∧ i.reqUop.isLoad = true ∧ i.cacheReady = true ∧
      (s.inflightLoadBuffer s.enqIdx).valid = false := by
  obtain ⟨hval, hrdy⟩ := Bool.and_eq_true_iff.mp h
  obtain ⟨hreq, hload⟩ := Bool.and_eq_true_iff.mp hval
  obtain ⟨k, hk⟩ := orR_eq_true.mp hrdy
  obtain ⟨hfree, hready⟩ := Bool.and_eq_true_iff.mp hk
  refine ⟨hreq, hload, hready, ?_⟩
  rw [enqIdx]
  cases henc : priorityEncoder fun k => !(s.inflightLoadBuffer k).valid with
  | none =>
    have hnone := priorityEncoder_eq_none.mp henc k
    rw [hfree] at hnone
    cases hnone
  | some j =>
    have hj := priorityEncoder_some henc
    exact Bool.not_eq_true' _ ▸ hj

/-- A slot that is written holds the load that is accepted. -/
theorem next_of_enq {k : Fin n} (h : s.enqCanOccur i = true) (hk : s.enqIdx = k) :
    (s.next i).inflightLoadBuffer k =
      ⟨true, i.flushPipe || isKilledByBranch i.brinfo i.reqUop.brMask,
        i.reqUop.resolve i.brinfo⟩ := by
  subst hk
  obtain ⟨-, -, -, hfree⟩ := free_of_enqCanOccur h
  simp [next, LoadReqSlot.next, slotInput, h, hfree, LoadReqSlot.brKilledIncoming,
    RobUop.resolve]

/-- A slot that is neither written nor cleared keeps its load. -/
theorem next_of_keep {k : Fin n} (hwen : ¬(s.enqCanOccur i = true ∧ s.enqIdx = k))
    (hclear : s.clear i k = false) : (s.next i).inflightLoadBuffer k =
      ⟨(s.inflightLoadBuffer k).valid,
        (s.inflightLoadBuffer k).wasKilled || i.flushPipe ||
          isKilledByBranch i.brinfo (s.inflightLoadBuffer k).uop.brMask,
        (s.inflightLoadBuffer k).uop.resolve i.brinfo⟩ := by
  have hno : (s.enqCanOccur i && decide (s.enqIdx = k)) = false := by
    rw [← Bool.not_eq_true, Bool.and_eq_true, decide_eq_true_eq]
    exact hwen
  have huop : (if (s.inflightLoadBuffer k).bmaskMatch i.brinfo then
      (s.inflightLoadBuffer k).uop.withMask
        (getNewBrMask i.brinfo (s.inflightLoadBuffer k).uop.brMask)
      else (s.inflightLoadBuffer k).uop) = (s.inflightLoadBuffer k).uop.resolve i.brinfo := by
    cases hb : i.brinfo with
    | none => rfl
    | some b =>
      split
      case isTrue => rfl
      case isFalse h =>
        rw [RobUop.resolve, getNewBrMask_of_not_match (Bool.not_eq_true _ ▸ h)]
        rfl
  show (s.inflightLoadBuffer k).next (s.slotInput i k) = _
  simp only [LoadReqSlot.next, slotInput, hno, hclear, Bool.false_and, Bool.false_eq_true, if_false,
    LoadReqSlot.brKilled, huop]
  cases i.flushPipe <;> cases isKilledByBranch i.brinfo (s.inflightLoadBuffer k).uop.brMask <;>
    cases (s.inflightLoadBuffer k).wasKilled <;> rfl

theorem valid_next_of_clear {k : Fin n} (hvalid : (s.inflightLoadBuffer k).valid = true)
    (hclear : s.clear i k = true) : ((s.next i).inflightLoadBuffer k).valid = false := by
  simp [next, LoadReqSlot.next, slotInput, hvalid, hclear]

end DCacheWrapper

end RiscvSoc
