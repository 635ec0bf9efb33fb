import Mathlib.Data.Nat.Bits
import RiscvSoc.Lib.Encoder
import RiscvSoc.Lib.Machine

/-!
# The DRAM-side last-level cache

`LLCMSHRFile`, `LLCWriteback`, `LLCData` and `DRAMSideLLC` from
`uncore/src/main/scala/llc.scala`, one clock cycle at a time: the wires of a cycle are functions
of the registers and of the cycle's inputs, and `DRAMSideLLC.next` is what the registers hold
afterwards. In a block of `when`s the later assignment wins, so each register's updates stand in
the order of the source.

## Numbers

A line address is a natural number: its low digit to base `sets` is the set, the rest the tag, so
no width has to be fixed for it. An index into a table the source sizes by a power of two is a
`Fin`. What a priority encoder answers when no line is up is never looked at.

## The two memories

`BigMem` has one port and a fixed latency, so a read sees exactly the accesses issued before it.
The tag array answers in the next cycle: `tagRidx` is the set it was asked for last. The data
array answers after `latency` cycles: `pipe` holds the beats on their way to the queue `q`, read
out of the array in the cycle they were asked for.
-/

namespace RiscvSoc

/-- `sets`, `ways`, `outstanding` and `refill_cycles`. The chip has 512 sets, 8 ways, 16
outstanding misses, and refills a 64-byte line over a narrower memory bus. -/
structure LLCConf where
  setBits : ℕ
  wayBits : ℕ
  outstanding : ℕ
  refillBits : ℕ
  setBits_pos : 0 < setBits
  wayBits_pos : 0 < wayBits
  refillBits_pos : 0 < refillBits

namespace LLCConf

variable (c : LLCConf)

abbrev sets : ℕ := 2 ^ c.setBits

abbrev ways : ℕ := 2 ^ c.wayBits

abbrev refillCycles : ℕ := 2 ^ c.refillBits

theorem one_lt_refillCycles : 1 < c.refillCycles :=
  Nat.one_lt_two_pow c.refillBits_pos.ne'

/-- Two sets of two ways, two misses, two beats to a line. -/
def small : LLCConf := ⟨1, 1, 2, 1, one_pos, one_pos, one_pos⟩

end LLCConf

variable {c : LLCConf} {D : Type}

/-! ### Messages -/

structure MemReqCmd where
  rw : Bool
  addr : ℕ
  tag : ℕ
  deriving DecidableEq, Repr

structure LLCDataReq (c : LLCConf) extends MemReqCmd where
  way : Fin c.ways
  isWriteback : Bool

/-- One beat of one line of the data array. -/
structure LLCDataAddr (c : LLCConf) where
  way : Fin c.ways
  set : ℕ
  beat : ℕ
  deriving DecidableEq

/-- One entry of the tag array. -/
structure LLCMeta where
  dirty : Bool
  valid : Bool
  tag : ℕ
  deriving DecidableEq, Repr

/-- What the outside drives in one cycle. The memory answers a read by the number of its MSHR. -/
structure LLCInput (c : LLCConf) (D : Type) where
  /-- `io.cpu.req_cmd`. -/
  reqCmd : Option MemReqCmd
  /-- `io.cpu.req_data`. -/
  reqData : Option D
  /-- `io.cpu.resp.ready`. -/
  respReady : Bool
  /-- `io.mem.req_cmd.ready`. -/
  memCmdReady : Bool
  /-- `io.mem.req_data.ready`. -/
  memDataReady : Bool
  /-- `io.mem.resp`. -/
  memResp : Option (Fin c.outstanding × D)

/-- A cycle in which nothing happens. -/
def LLCInput.quiet : LLCInput c D := ⟨none, none, false, false, false, none⟩

/-! ### `LLCMSHRFile` -/

structure MSHR (c : LLCConf) where
  addr : ℕ
  way : Fin c.ways
  tag : ℕ
  refilled : Bool
  refillCount : ℕ
  requested : Bool
  oldDirty : Bool
  oldTag : ℕ
  wbBusy : Bool

/-- The line an MSHR evicts. -/
def MSHR.victim (m : MSHR c) : ℕ := m.oldTag * c.sets + m.addr % c.sets

structure LLCMSHRFile (c : LLCConf) where
  valid : Fin c.outstanding → Bool
  mshr : Fin c.outstanding → MSHR c

namespace LLCMSHRFile

variable (f : LLCMSHRFile c)

def freeId : Option (Fin c.outstanding) := priorityEncoder fun i => !f.valid i

/-- `requests`, before the data array has drained. -/
def requestId : Option (Fin c.outstanding) := priorityEncoder fun i =>
  f.valid i && !(f.mshr i).oldDirty && !(f.mshr i).wbBusy && !(f.mshr i).requested

def replayId : Option (Fin c.outstanding) := priorityEncoder fun i =>
  f.valid i && (f.mshr i).refilled

def writebackId : Option (Fin c.outstanding) := priorityEncoder fun i =>
  f.valid i && (f.mshr i).oldDirty

/-- `conflicts.orR`: some MSHR works on the set of `addr`. -/
def conflict (addr : ℕ) : Bool := orR fun i =>
  f.valid i && decide (addr % c.sets = (f.mshr i).addr % c.sets)

/-- `io.cpu.ready`. -/
def cpuReady (addr : ℕ) : Bool := !f.conflict addr && f.freeId.isSome

/-- `io.data`: a refilled line goes first, once the pipeline leaves the tag array alone. -/
def data (tagReady : Bool) : Option (LLCDataReq c) :=
  match f.replayId with
  | some i =>
    if tagReady then some ⟨⟨false, (f.mshr i).addr, (f.mshr i).tag⟩, (f.mshr i).way, false⟩
    else none
  | none => f.writebackId.map fun i => ⟨⟨false, (f.mshr i).victim, 0⟩, (f.mshr i).way, true⟩

/-- `io.mem.req_cmd`: the MSHR that asks for its line, once in-flight hits have drained. -/
def memReq (dataReady : Bool) : Option (Fin c.outstanding) :=
  if dataReady then f.requestId else none

/-- The MSHR whose line is put into the tag array this cycle: `io.tag` fires. -/
def tagFire (dataReady tagReady : Bool) : Option (Fin c.outstanding) :=
  if dataReady && tagReady then f.replayId else none

/-- The MSHR whose victim is handed over this cycle. -/
def writebackFire (dataReady : Bool) : Option (Fin c.outstanding) :=
  if dataReady && f.replayId.isNone then f.writebackId else none

/-- The MSHR's registers when a miss is allocated to it. -/
def MSHR.allocate (m : MSHR c) (cmd : MemReqCmd) (way : Fin c.ways) (repl : LLCMeta) : MSHR c :=
  { m with
    addr := cmd.addr
    tag := cmd.tag
    way := way
    oldDirty := repl.dirty && repl.valid
    oldTag := repl.tag
    wbBusy := false
    requested := false
    refillCount := 0
    refilled := false }

/-- The miss that fires at `io.cpu` goes to the first free MSHR. -/
def allocated (alloc : Option (MemReqCmd × Fin c.ways × LLCMeta)) (i : Fin c.outstanding) :
    MSHR c :=
  match alloc with
  | some (cmd, way, repl) =>
    if f.freeId = some i then MSHR.allocate (f.mshr i) cmd way repl else f.mshr i
  | none => f.mshr i

/-- The rest of a cycle, for an MSHR that held `old` and was allocated to `m`: its request is
taken, a beat comes back for it, its victim is handed over, the array has drained. -/
def MSHR.update (old m : MSHR c) (request resp writeback drained : Bool) : MSHR c :=
  let m := if request then { m with requested := true } else m
  let m := if resp then
      { m with
        refillCount := (old.refillCount + 1) % c.refillCycles
        refilled := m.refilled || decide (old.refillCount = c.refillCycles - 1) }
    else m
  let m := if writeback then { m with oldDirty := false, wbBusy := true } else m
  if drained then { m with wbBusy := false } else m

/-- The registers after a cycle: `alloc` is the miss that fires at `io.cpu`, `memFire` whether the
request is taken, `resp` the MSHR a beat comes back for. -/
def next (alloc : Option (MemReqCmd × Fin c.ways × LLCMeta)) (memFire : Bool)
    (resp : Option (Fin c.outstanding)) (dataReady tagReady : Bool) : LLCMSHRFile c where
  valid i :=
    if f.tagFire dataReady tagReady = some i then false
    else if alloc.isSome && decide (f.freeId = some i) then true
    else f.valid i
  mshr i := MSHR.update (f.mshr i) (f.allocated alloc i)
    (memFire && decide (f.memReq dataReady = some i)) (decide (resp = some i))
    (decide (f.writebackFire dataReady = some i)) ((f.mshr i).wbBusy && dataReady)

end LLCMSHRFile

/-! ### `LLCWriteback` -/

/-- Requestor `0` is the data array with a victim, requestor `1` the CPU with a write miss. -/
structure LLCWriteback where
  valid : Bool
  who : Fin 2
  addr : ℕ
  cmdSent : Bool
  dataSent : Bool
  count : ℕ

namespace LLCWriteback

variable (w : LLCWriteback)

/-- `io.req(i).ready`: the lower requestor goes first. -/
def reqReady (req : Fin 2 → Option ℕ) (i : Fin 2) : Bool :=
  !w.valid && (decide (i = 0) || (req 0).isNone)

/-- `io.data(i).ready`. -/
def dataReady (memDataReady : Bool) (i : Fin 2) : Bool :=
  w.valid && decide (w.who = i) && memDataReady

/-- `io.mem.req_data`. -/
def memData (data : Fin 2 → Option D) : Option D :=
  if w.valid && !w.dataSent then data w.who else none

/-- `io.mem.req_cmd`, always a write. -/
def memCmd : Option ℕ := if w.valid && !w.cmdSent then some w.addr else none

/-- The requestor that is taken, `nextWho`, and its address. -/
def nextReq (req : Fin 2 → Option ℕ) : Option (Fin 2 × ℕ) :=
  match req 0 with
  | some addr => some (0, addr)
  | none => (req 1).map fun addr => (1, addr)

/-- The registers after a cycle in which a beat (`dataFire`) and the command (`cmdFire`) may be
taken by memory. -/
def next (c : LLCConf) (req : Fin 2 → Option ℕ) (dataFire cmdFire : Bool) : LLCWriteback :=
  let w₁ := match nextReq req with
    | some (who, addr) => if w.valid then w else
      { w with valid := true, cmdSent := false, dataSent := false, who := who, addr := addr }
    | none => w
  let w₂ := if dataFire then { w₁ with count := (w.count + 1) % c.refillCycles } else w₁
  let w₃ := if dataFire && decide (w.count = c.refillCycles - 1) then
      { w₂ with dataSent := true, valid := if w.cmdSent then false else w₂.valid }
    else w₂
  let w₄ := if cmdFire then { w₃ with cmdSent := true } else w₃
  if w.valid && w.cmdSent && w.dataSent then { w₄ with valid := false } else w₄

end LLCWriteback

/-! ### `LLCData` -/

structure LLCQEntry (D : Type) where
  tag : ℕ
  isWriteback : Bool
  data : D

/-- What goes into the one port of the data array. -/
inductive LLCArrayOp (c : LLCConf) (D : Type)
  | read (a : LLCDataAddr c)
  | write (a : LLCDataAddr c) (d : D)

structure LLCData (c : LLCConf) (D : Type) where
  array : LLCDataAddr c → D
  valid : Bool
  req : LLCDataReq c
  count : ℕ
  refillCount : ℕ
  /-- Beats on their way out of the array, the oldest first. -/
  pipe : List (Option (LLCQEntry D))
  q : List (LLCQEntry D)

namespace LLCData

variable (u : LLCData c D)

/-- `latency` of the instance in `DRAMSideLLC`. -/
abbrev latency : ℕ := 4

/-- The queue takes what is already on its way. -/
def qReady : Bool := decide (u.q.length ≤ 1)

/-- `io.req.ready`, for a request whose `isWriteback` is known. -/
def reqReady (isWriteback wbReady : Bool) : Bool := !u.valid && (!isWriteback || wbReady)

/-- The request being served: the one in the register, or the one at the port. -/
def current (req : Option (LLCDataReq c)) (wbReady : Bool) : Option (LLCDataReq c) :=
  if u.valid then some u.req
  else req.filter fun r => u.reqReady r.isWriteback wbReady

/-- `io.req_data.ready`. -/
def reqDataReady (req : Option (LLCDataReq c)) (memRespValid : Bool) : Bool :=
  !memRespValid && (if u.valid then u.req.rw else (req.map (·.rw)).getD false)

/-- `data.io.in`: a refill beat from memory has the port to itself. -/
def arrayIn (req : Option (LLCDataReq c)) (wbReady : Bool) (reqData : Option D)
    (memResp : Option ((Fin c.ways × ℕ) × D)) : Option (LLCArrayOp c D) :=
  match memResp with
  | some ((way, set), d) => some (.write ⟨way, set, u.refillCount⟩ d)
  | none =>
    match u.current req wbReady with
    | some r =>
      if r.rw then reqData.map fun d => .write ⟨r.way, r.addr % c.sets, u.count⟩ d
      else if u.qReady then some (.read ⟨r.way, r.addr % c.sets, u.count⟩) else none
    | none => none

/-- What a beat read this cycle will be in the queue. -/
def pipeIn (req : Option (LLCDataReq c)) (wbReady : Bool) :
    Option (LLCArrayOp c D) → Option (LLCQEntry D)
  | some (.read a) => (u.current req wbReady).map fun r => ⟨r.tag, r.isWriteback, u.array a⟩
  | _ => none

/-- `io.resp`. -/
def resp : Option (LLCQEntry D) := u.q.head?.filter fun e => !e.isWriteback

/-- `io.writeback_data`. -/
def writebackData : Option D := (u.q.head?.filter fun e => e.isWriteback).map (·.data)

/-- The head of the queue leaves. -/
def deqFire (respReady writebackDataReady : Bool) : Bool :=
  match u.q with
  | e :: _ => if e.isWriteback then writebackDataReady else respReady
  | [] => false

def next (req : Option (LLCDataReq c)) (wbReady : Bool) (reqData : Option D)
    (memResp : Option ((Fin c.ways × ℕ) × D)) (respReady writebackDataReady : Bool) :
    LLCData c D :=
  let op := u.arrayIn req wbReady reqData memResp
  let step := op.isSome && memResp.isNone
  let reqFire := req.filter fun r => u.reqReady r.isWriteback wbReady
  { array := fun a => match op with
      | some (.write a' d) => if a = a' then d else u.array a
      | _ => u.array a
    valid :=
      if reqFire.isSome then true
      else if step && u.valid && decide (u.count = c.refillCycles - 1) then false
      else u.valid
    req := reqFire.getD u.req
    count := if step then (u.count + 1) % c.refillCycles else u.count
    refillCount := if memResp.isSome then (u.refillCount + 1) % c.refillCycles else u.refillCount
    pipe := u.pipe.tail ++ [u.pipeIn req wbReady op]
    q := (if u.deqFire respReady writebackDataReady then u.q.tail else u.q) ++
      (if u.q.length < latency + 2 then (u.pipe.head?.join).toList else []) }

end LLCData

/-! ### `DRAMSideLLC` -/

structure DRAMSideLLC (c : LLCConf) (D : Type) where
  initCount : ℕ
  replayS2 : Bool
  s1Valid : Bool
  s1 : MemReqCmd
  s2Valid : Bool
  s2 : MemReqCmd
  s2Tags : Fin c.ways → LLCMeta
  tags : ℕ → Fin c.ways → LLCMeta
  tagRidx : ℕ
  lfsr : ℕ
  mshr : LLCMSHRFile c
  data : LLCData c D
  writeback : LLCWriteback

namespace DRAMSideLLC

variable (s : DRAMSideLLC c D) (i : LLCInput c D)

/-- `initialize`: the tag array is being cleared. -/
def initializing : Bool := decide (s.initCount < c.sets)

def s2Hits (way : Fin c.ways) : Bool :=
  (s.s2Tags way).valid && decide (s.s2.addr / c.sets = (s.s2Tags way).tag)

def s2HitWay : Fin c.ways := ohToUInt s.s2Hits

def s2Hit : Bool := orR s.s2Hits

def s2HitDirty : Bool := (s.s2Tags s.s2HitWay).dirty

/-- The way a miss replaces, out of the low bits of the shift register. -/
def replWay : Fin c.ways := ⟨s.lfsr % c.ways, Nat.mod_lt _ (Nat.two_pow_pos _)⟩

def setDirty : Bool := s.s2Valid && s.s2.rw && s.s2Hit && !s.s2HitDirty

/-- `LFSR16`. -/
def lfsr16 (x : ℕ) : ℕ :=
  x / 2 + if x.testBit 0 ^^ x.testBit 2 ^^ x.testBit 3 ^^ x.testBit 5 then 2 ^ 15 else 0

/-- `mshr.io.cpu.ready`: it looks at the command in `s2`, whatever that is. -/
def mshrReady : Bool := s.mshr.cpuReady s.s2.addr

/-- `mshr.io.tag.ready`. -/
def tagReady : Bool := !s.s1Valid && !s.s2Valid

/-- `mshr.io.data`. -/
def mshrData : Option (LLCDataReq c) := s.mshr.data s.tagReady

/-- `dataArb.io.in(1)`: a hit. -/
def hitReq : Option (LLCDataReq c) :=
  if s.s2Valid && s.s2Hit && s.mshrReady then some ⟨s.s2, s.s2HitWay, false⟩ else none

/-- `dataArb.io.out`. -/
def dataReq : Option (LLCDataReq c) := s.mshrData <|> s.hitReq

/-- `data.io.writeback.ready`. -/
def victimReady : Bool := !s.writeback.valid

/-- `dataArb.io.out.ready`, which is also `mshr.io.data.ready`. With nothing at the arbiter its
output still shows what the hit port would send, which is no writeback. -/
def dataReady : Bool :=
  s.data.reqReady ((s.dataReq.map (·.isWriteback)).getD false) s.victimReady

/-- `dataArb.io.in(1).ready`. -/
def hitReady : Bool := s.dataReady && s.mshrData.isNone

/-- `data.io.writeback`: the data array starts to read out a victim. -/
def victimReq : Option ℕ :=
  (s.dataReq.filter fun r => r.isWriteback && s.dataReady).map (·.addr)

/-- `writeback.io.req(1)`: a write miss. -/
def missReq : Option ℕ :=
  if s.s2Valid && !s.s2Hit && s.s2.rw && s.mshrReady then some s.s2.addr else none

/-- `writeback.io.req`. -/
def wbReq : Fin 2 → Option ℕ
  | 0 => s.victimReq
  | 1 => s.missReq

def s3Rdy : Bool :=
  s.mshrReady && (if s.s2Hit then s.hitReady else !s.s2.rw || s.writeback.reqReady s.wbReq 1)

/-- `mshr.io.tag.fire()`. -/
def tagFire : Option (Fin c.outstanding) := s.mshr.tagFire s.dataReady s.tagReady

def tagWe : Bool := s.initializing || s.setDirty || s.tagFire.isSome

def replayS2Rdy : Bool := s.s3Rdy && !s.tagWe

/-- `io.cpu.req_cmd.ready`. -/
def reqCmdReady : Bool := !s.s1Valid && !s.s2Valid && !s.replayS2 && !s.tagWe

/-- `io.cpu.req_cmd.fire()`. -/
def reqCmdFire : Option MemReqCmd := if s.reqCmdReady then i.reqCmd else none

/-- `replay_s2 && replay_s2_rdy`. -/
def replayFire : Bool := s.replayS2 && s.replayS2Rdy

/-- The read miss that fires at `mshr.io.cpu`, with the way it replaces. -/
def missAlloc : Option (MemReqCmd × Fin c.ways × LLCMeta) :=
  if s.s2Valid && !s.s2Hit && !s.s2.rw && s.mshrReady then
    some (s.s2, s.replWay, s.s2Tags s.replWay)
  else none

/-- `memCmdArb.io.in(0)`: the refill read an MSHR asks for. -/
def refillReq : Option (Fin c.outstanding) := s.mshr.memReq s.dataReady

/-- `memCmdArb.io.in(1)` fires: refill reads go first. -/
def wbCmdFire : Bool := s.writeback.memCmd.isSome && s.refillReq.isNone && i.memCmdReady

/-- `writeback.io.data`. -/
def wbData : Fin 2 → Option D
  | 0 => s.data.writebackData
  | 1 => i.reqData

/-- `io.mem.req_data.fire()`. -/
def wbDataFire : Bool := (s.writeback.memData (s.wbData i)).isSome && i.memDataReady

/-- `io.cpu.req_data.ready`. -/
def reqDataReady : Bool :=
  s.writeback.dataReady i.memDataReady 1 || s.data.reqDataReady s.dataReq i.memResp.isSome

/-- The beat of a refill, with the way and the set it belongs to. -/
def refillBeat : Option ((Fin c.ways × ℕ) × D) :=
  i.memResp.map fun r => (((s.mshr.mshr r.1).way, (s.mshr.mshr r.1).addr % c.sets), r.2)

/-- `data.io.in` of the data array. -/
def arrayIn : Option (LLCArrayOp c D) :=
  s.data.arrayIn s.dataReq s.victimReady i.reqData (s.refillBeat i)

/-- The address `io.tag.bits.addr`. -/
def tagAddr : ℕ := (s.mshrData.map (·.addr)).getD 0

/-- The set and the ways the tag array is written in, and what with. -/
def tagWrite (set : ℕ) (way : Fin c.ways) : LLCMeta :=
  let waddr := if s.initializing then s.initCount else if s.setDirty then s.s2.addr else s.tagAddr
  let mask := s.initializing || decide (way = if s.setDirty then s.s2HitWay else
    (s.mshrData.map (·.way)).getD way)
  if s.tagWe && decide (set = waddr % c.sets) && mask then
    ⟨s.setDirty, !s.initializing, (if s.setDirty then s.s2.addr else s.tagAddr) / c.sets⟩
  else s.tags set way

/-- One cycle. -/
def next : DRAMSideLLC c D where
  initCount := if s.initializing then s.initCount + 1 else s.initCount
  replayS2 := s.s2Valid && !s.s3Rdy || s.replayS2 && !s.replayS2Rdy
  s1Valid := (s.reqCmdFire i).isSome || s.replayFire
  s1 := if s.replayFire then s.s2 else (s.reqCmdFire i).getD s.s1
  s2Valid := s.s1Valid
  s2 := if s.s1Valid then s.s1 else s.s2
  s2Tags := if s.s1Valid then s.tags s.tagRidx else s.s2Tags
  tags := s.tagWrite
  tagRidx :=
    if s.tagWe then s.tagRidx
    else if s.replayFire then s.s2.addr % c.sets
    else ((s.reqCmdFire i).map (·.addr % c.sets)).getD s.tagRidx
  lfsr := if s.s2Valid then lfsr16 s.lfsr else s.lfsr
  mshr := s.mshr.next s.missAlloc i.memCmdReady (i.memResp.map (·.1)) s.dataReady s.tagReady
  data := s.data.next s.dataReq s.victimReady i.reqData (s.refillBeat i) i.respReady
    (s.writeback.dataReady i.memDataReady 0)
  writeback := s.writeback.next c s.wbReq (s.wbDataFire i) (s.wbCmdFire i)

/-- Reset: only registers with an `init` have a known value. -/
structure IsReset : Prop where
  initCount : s.initCount = 0
  replayS2 : s.replayS2 = false
  s1Valid : s.s1Valid = false
  s2Valid : s.s2Valid = false
  lfsr : s.lfsr = 1
  mshr : ∀ i, s.mshr.valid i = false
  dataValid : s.data.valid = false
  dataCount : s.data.count = 0
  refillCount : s.data.refillCount = 0
  pipe : s.data.pipe = List.replicate LLCData.latency none
  q : s.data.q = []
  wbValid : s.writeback.valid = false
  wbCount : s.writeback.count = 0

/-- The circuit after reset, every other register and both memories cleared. -/
def reset (d : D) : DRAMSideLLC c D where
  initCount := 0
  replayS2 := false
  s1Valid := false
  s1 := ⟨false, 0, 0⟩
  s2Valid := false
  s2 := ⟨false, 0, 0⟩
  s2Tags _ := ⟨false, false, 0⟩
  tags _ _ := ⟨false, false, 0⟩
  tagRidx := 0
  lfsr := 1
  mshr := ⟨fun _ => false, fun _ => ⟨0, 0, 0, false, 0, false, false, 0, false⟩⟩
  data := ⟨fun _ => d, false, ⟨⟨false, 0, 0⟩, 0, false⟩, 0, 0,
    List.replicate LLCData.latency none, []⟩
  writeback := ⟨false, 0, 0, false, false, 0⟩

theorem isReset_reset (d : D) : (reset (c := c) d).IsReset where
  initCount := rfl
  replayS2 := rfl
  s1Valid := rfl
  s2Valid := rfl
  lfsr := rfl
  mshr _ := rfl
  dataValid := rfl
  dataCount := rfl
  refillCount := rfl
  pipe := rfl
  q := rfl
  wbValid := rfl
  wbCount := rfl

/-- The circuit. -/
def machine (c : LLCConf) (D : Type) : Machine (DRAMSideLLC c D) (LLCInput c D) :=
  .clocked IsReset next

end DRAMSideLLC

end RiscvSoc
