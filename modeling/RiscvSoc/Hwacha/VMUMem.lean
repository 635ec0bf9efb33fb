import RiscvSoc.Hwacha.VMUTypes
import RiscvSoc.Lib.Arbiter
import RiscvSoc.Lib.Machine

/-!
# The memory side of the vector memory unit

The last stage of the vector memory unit, from the queue of physical addresses to the data cache and
back to the queue of the loaded data. An entry of the address queue waits until the lanes have
reserved it (`VPAQ`), takes a tag if its answer has to be kept apart (`MetadataAlloc`), competes
with the prefetches for the port of the cache (`VMU`), and meets the data of a store there
(`MemIF`). The metadata of a load stay behind under its tag (`MetadataBuffer`), and a counter keeps
a place for its answer (`LoadDataUnit`).

The cache is part of the model as far as it answers the loads and atomics it has accepted: each
once, at any time and in any order, with any data.
-/

namespace RiscvSoc

namespace Hwacha

/-! ### Entries -/

namespace VMUFn

def M_PFR : BitVec 5 := 0b00010

def M_PFW : BitVec 5 := 0b00011

/-- `is_mcmd_load`. -/
def isLoad (cmd : BitVec 5) : Bool := cmd == M_XRD

/-- `is_mcmd_store`. -/
def isStore (cmd : BitVec 5) : Bool := cmd == M_XWR

/-- `is_mcmd_pf`. -/
def isPrefetch (cmd : BitVec 5) : Bool := cmd == M_PFR || cmd == M_PFW

end VMUFn

open VMUFn

/-- The commands of the vector memory unit. -/
structure VMUCmd where
  raw : BitVec 5
  known : (isLoad raw || isStore raw || isAMO raw || isPrefetch raw) = true

namespace VMUCmd

variable (c : VMUCmd)

/-- The cache answers with data. -/
def loads : Bool := isLoad c.raw || isAMO c.raw

/-- The cache is given data. -/
def stores : Bool := isStore c.raw || isAMO c.raw

def prefetch (write : Bool) : VMUCmd where
  raw := if write then M_PFW else M_PFR
  known := by cases write <;> rfl

theorem prefetch_plain (write : Bool) :
    (prefetch write).loads = false ∧ (prefetch write).stores = false := by
  cases write <;> exact ⟨rfl, rfl⟩

end VMUCmd

structure VMUMetadata where
  utidx : BitVec 12
  utcnt : BitVec 4
  shift : BitVec 3
  deriving DecidableEq

structure VPAQEntry where
  cmd : VMUCmd
  typ : BitVec 3
  addr : BitVec 32
  info : VMUMetadata

/-- `VPAQMemIf`. -/
structure VPAQMemIf where
  cmd : VMUCmd
  typ : BitVec 3
  addr : BitVec 32
  tag : Fin 16

structure VLDQEntry where
  info : VMUMetadata
  data : BitVec 64
  deriving DecidableEq

/-- The head of the queue of the prefetches. -/
structure Prefetch where
  write : Bool
  typ : BitVec 3
  addr : BitVec 32

/-! ### State -/

structure VMUMem where
  vpaq : Queue VPAQEntry 16
  /-- The entries that the lanes have reserved. -/
  reserved : BitVec 5
  lastGrant : Fin 2
  vsdq : Queue (BitVec 64) 16
  busy : BitVec 16
  data : Fin 16 → VMUMetadata
  vldq : Queue VLDQEntry 16
  /-- The free places of `vldq`, less one for every load on its way. -/
  count : BitVec 5

structure VMUMemIn where
  vpaqEnq : Option VPAQEntry
  reserve : Bool
  cnt : BitVec 5
  drain : Bool
  pfValid : Bool
  pf : Prefetch
  laneData : Option (BitVec 64)
  evacData : Option (BitVec 64)
  dmemReady : Bool
  /-- The cache answers this one of the requests it has accepted, with these data. -/
  resp : Option (ℕ × BitVec 64)
  laneReady : Bool

namespace VMUMem

variable (s : VMUMem) (i : VMUMemIn)

/-! ### The address queue and the tags -/

def head : VPAQEntry := s.vpaq.ram s.vpaq.ptrs.deq

/-- `stall` of `VPAQ`. -/
def throttled : Bool :=
  decide (s.reserved.toNat < s.head.info.utcnt.toNat) && !i.drain

/-- `vmda.io.vpaq.valid`. -/
def vpaqValid : Bool := !s.vpaq.ptrs.empty && !s.throttled i

def free (t : Fin 16) : Bool := !s.busy.getLsbD t

/-- `PriorityEncoder(~busy)`, which is the last tag if there is no free one. -/
def tag : Fin 16 := (priorityEncoder s.free).getD (Fin.last 15)

/-- `io.wr.info.ready`. -/
def infoReady : Bool := orR s.free

/-- `vmdb_ready`. -/
def vmdbReady : Bool := !s.head.cmd.loads || s.infoReady

/-! ### The arbiter and the cache port -/

def arbValid (k : Fin 2) : Bool := if k = 0 then s.vpaqValid i && s.vmdbReady else i.pfValid

/-- `chosen`, which is the last producer if none asks. -/
def choice : Fin 2 := (RRArbiter.chosen s.lastGrant (s.arbValid i)).getD (Fin.last 1)

def arbBits : VPAQMemIf :=
  if s.choice i = 0 then ⟨s.head.cmd, s.head.typ, s.head.addr, s.tag⟩
  else ⟨.prefetch i.pf.write, i.pf.typ, i.pf.addr, 0⟩

/-- `io.vpaq.valid` of `MemIF`. -/
def ifValid : Bool := (RRArbiter.chosen s.lastGrant (s.arbValid i)).isSome

def vsdqValid : Bool := !s.vsdq.ptrs.empty

def vsdqBits : BitVec 64 := s.vsdq.ram s.vsdq.ptrs.deq

/-- `io.vldq.stall`. -/
def stall : Bool := decide (s.count = 0)

/-- The command in `MemIF`. -/
def cmd : BitVec 5 := (s.arbBits i).cmd.raw

/-- `io.vpaq.ready` of `MemIF`. -/
def ifReady : Bool :=
  i.dmemReady && (isPrefetch (s.cmd i) || isLoad (s.cmd i) && !s.stall ||
    isStore (s.cmd i) && s.vsdqValid || isAMO (s.cmd i) && s.vsdqValid && !s.stall)

/-- `io.vsdq.ready` of `MemIF`. -/
def vsdqReady : Bool :=
  i.dmemReady && s.ifValid i && (isStore (s.cmd i) || isAMO (s.cmd i) && !s.stall)

/-- `io.dmem.req.valid`. -/
def dmemValid : Bool :=
  s.ifValid i && (!isStore (s.cmd i) && !isAMO (s.cmd i) || s.vsdqValid)

/-- The cache accepts a request. -/
def dmemFire : Bool := s.dmemValid i && i.dmemReady

/-- `MemIF` takes an entry of either kind. -/
def ifFire : Bool := s.ifValid i && s.ifReady i

/-- The store-data queue gives up an entry. -/
def vsdqFire : Bool := s.vsdqValid && s.vsdqReady i

/-- `vmda.io.memif.ready`. -/
def memifReady : Bool := RRArbiter.inReady s.lastGrant (s.arbValid i) (s.ifReady i) 0

/-- `vmda.io.vpaq.ready`. -/
def vpaqReady : Bool := s.memifReady i && s.vmdbReady

/-- The address queue gives up an entry. -/
def deqFire : Bool := s.vpaqReady i && s.vpaqValid i

/-- `io.wr.info.fire()`. -/
def infoFire : Bool := s.head.cmd.loads && s.vpaqValid i && s.memifReady i && s.infoReady

/-- A prefetch is taken. -/
def pfFire : Bool :=
  i.pfValid && RRArbiter.inReady s.lastGrant (s.arbValid i) (s.ifReady i) 1

/-! ### Queues -/

/-- The arbiter in front of the store data: the lanes go first. -/
def vsdqEnq : Option (BitVec 64) := i.laneData.or i.evacData

def vpaqIn : QueueInput VPAQEntry := ⟨i.vpaqEnq, s.vpaqReady i && !s.throttled i⟩

def vsdqIn : QueueInput (BitVec 64) := ⟨vsdqEnq i, s.vsdqReady i⟩

/-- The load-data queue, for an answer with this tag. -/
def vldqIn (resp : Option (Fin 16 × BitVec 64)) : QueueInput VLDQEntry :=
  ⟨resp.map fun r => ⟨s.data r.1, r.2⟩, i.laneReady⟩

/-- The load-data queue takes the answer. -/
def vldqEnqFire (resp : Option (Fin 16 × BitVec 64)) : Bool :=
  s.vldq.enqReady false (s.vldqIn i resp) && resp.isSome

/-- The lanes take an entry. -/
def laneFire : Bool := i.laneReady && !s.vldq.ptrs.empty

/-! ### One cycle -/

/-- `busy_mask_rd`: the tag of an answer that the load-data queue takes. -/
def busyMaskRd (resp : Option (Fin 16 × BitVec 64)) : BitVec 16 :=
  match resp with
  | some r => if s.vldqEnqFire i resp then BitVec.twoPow 16 r.1 else 0
  | none => 0

/-- `busy_mask_wr`. -/
def busyMaskWr : BitVec 16 := if s.infoFire i then BitVec.twoPow 16 s.tag else 0

/-- The tags in use. -/
def nextBusy (resp : Option (Fin 16 × BitVec 64)) : BitVec 16 :=
  s.busy &&& ~~~s.busyMaskRd i resp ||| s.busyMaskWr i

def nextCount : BitVec 5 :=
  if s.laneFire i == s.infoFire i then s.count
  else if s.laneFire i then s.count + 1 else s.count - 1

def nextReserved : BitVec 5 :=
  if i.drain then s.reserved
  else s.reserved + (if i.reserve then i.cnt else 0) -
    (if s.deqFire i then s.head.info.utcnt.setWidth 5 else 0)

/-- One cycle, with an answer of the cache. -/
def next (resp : Option (Fin 16 × BitVec 64)) : VMUMem where
  vpaq := s.vpaq.next false false (s.vpaqIn i)
  reserved := s.nextReserved i
  lastGrant := RRArbiter.next s.lastGrant (s.arbValid i) (s.ifReady i)
  vsdq := s.vsdq.next false false (s.vsdqIn i)
  busy := s.nextBusy i resp
  data := if s.infoFire i then Function.update s.data s.tag s.head.info else s.data
  vldq := s.vldq.next false false (s.vldqIn i resp)
  count := s.nextCount i

structure IsReset : Prop where
  vpaq : s.vpaq.IsReset
  reserved : s.reserved = 0
  vsdq : s.vsdq.IsReset
  busy : s.busy = 0
  vldq : s.vldq.IsReset
  count : s.count = 16

end VMUMem

/-! ### The unit and the cache -/

/-- A load or an atomic that the cache has accepted. -/
structure Pending where
  entry : VPAQEntry
  tag : Fin 16

/-- A request of the address queue that the cache has accepted, with the data on the port. -/
structure Performed where
  entry : VPAQEntry
  tag : Fin 16
  data : BitVec 64

/-- The unit, and what the cache has to answer. -/
structure VMUMemSys where
  unit : VMUMem
  cache : List Pending

/-- What came out of the address queue and of the store-data queue, what the cache was asked for the
address queue, what it answered, and what came into the load-data queue and out of it. -/
structure VMUMemLog where
  consumed : List VPAQEntry
  storeData : List (BitVec 64)
  performed : List Performed
  answered : List (Pending × BitVec 64)
  kept : List VLDQEntry
  returned : List VLDQEntry

def VMUMemLog.empty : VMUMemLog := ⟨[], [], [], [], [], []⟩

namespace VMUMemSys

variable (s : VMUMemSys) (i : VMUMemIn)

/-- The request that is answered, if there is one with this number. -/
def answer : Option (Pending × BitVec 64) :=
  i.resp.bind fun r => s.cache[r.1]?.map (·, r.2)

/-- The answer on the port. -/
def resp : Option (Fin 16 × BitVec 64) := (s.answer i).map fun r => (r.1.tag, r.2)

/-- The cache accepts a request of the address queue. -/
def accepts : Bool := s.unit.dmemFire i && decide (s.unit.choice i = 0)

/-- The requests that are still to be answered after this cycle. -/
def remaining : List Pending :=
  match i.resp with
  | some r => s.cache.eraseIdx r.1
  | none => s.cache

def nextCache : List Pending :=
  s.remaining i ++
    if s.accepts i && s.unit.head.cmd.loads then [⟨s.unit.head, s.unit.tag⟩] else []

def next : VMUMemSys where
  unit := s.unit.next i (s.resp i)
  cache := s.nextCache i

def note (g : VMUMemLog) : VMUMemLog where
  consumed := g.consumed ++ s.unit.vpaq.left false (s.unit.vpaqIn i)
  storeData := g.storeData ++ s.unit.vsdq.left false (s.unit.vsdqIn i)
  performed := g.performed ++
    if s.accepts i then [⟨s.unit.head, s.unit.tag, s.unit.vsdqBits⟩] else []
  answered := g.answered ++ (s.answer i).toList
  kept := g.kept ++ s.unit.vldq.entered false (s.unit.vldqIn i (s.resp i))
  returned := g.returned ++ s.unit.vldq.left false (s.unit.vldqIn i (s.resp i))

def IsReset : Prop := s.unit.IsReset ∧ s.cache = []

def machine : Machine (VMUMemSys × VMUMemLog) VMUMemIn :=
  (Machine.clocked IsReset next).observe .empty note

end VMUMemSys

end Hwacha

end RiscvSoc
