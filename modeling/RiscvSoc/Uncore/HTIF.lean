import Mathlib.Data.Nat.Digits.Defs
import Mathlib.Logic.Function.Basic
import RiscvSoc.Lib.Bits
import RiscvSoc.Lib.Machine

/-!
# The host-target interface

`HTIF` from `uncore/src/main/scala/htif.scala`. The host talks to it in packets of 64-bit words,
each sent as `64 / w` subwords, the lowest first. The first word is the header: the command, a
12-bit size in words, a sequence number and a 40-bit word address. The interface reads and writes
memory a line at a time, and control registers of the tiles and its own.

## What is deliberately left out

The interrupts between tiles, which only pass through, and the probe and release channels, which
are tied off. A grant comes with what `requiresAckForGrant` says of its type.

## What the environment promises

A tile answers a control-register request only after it took it, and the memory grants only what
it was asked for (`HTIF.EnvOk`).
-/

namespace RiscvSoc

open Bits

/-- The parameters: `w = 2 ^ lgW`, `offsetBits = lineBits + 3`, and `dataBits = 64 * 2 ^ lineBits`.
A host width of one bit, or a whole word, does not elaborate. -/
structure HTIFConf where
  lgW : ℕ
  lineBits : ℕ
  nTiles : ℕ
  nSCR : ℕ
  addrBits : ℕ
  pcrReset : ℕ
  lgW_pos : 0 < lgW
  lgW_lt : lgW < 6
  lineBits_pos : 0 < lineBits
  lineBits_lt : lineBits < 12
  nTiles_pos : 0 < nTiles

namespace HTIFConf

variable (c : HTIFConf)

/-- The width of the host's port. -/
def w : ℕ := 2 ^ c.lgW

/-- `log2Up(short_request_bits/w)`. -/
def subBits : ℕ := 6 - c.lgW

/-- `packet_ram_depth`, the number of words in a line. -/
def packetRamDepth : ℕ := 2 ^ c.lineBits

/-- `rx_count_w`: one bit more than the size field, and the subwords. -/
def rxCountW : ℕ := 13 + c.subBits

/-- The parameters of the reference chip. -/
def chip : HTIFConf :=
  ⟨4, 3, 1, 64, 26, 0x51d, by decide, by decide, by decide, by decide, by decide⟩

end HTIFConf

/-! ### Messages and registers -/

inductive HTIFState
  | rx | pcrReq | pcrResp | memRreq | memWreq | memRresp | memWresp | memFinish | tx
  deriving DecidableEq, Repr

/-- The uncached acquire types the interface uses. -/
inductive HTIFAcquireType
  | uncachedRead | uncachedWrite
  deriving DecidableEq, Repr

/-- An acquire in `acq_q`. Its data is filled in when it leaves. -/
structure HTIFAcquire where
  aType : HTIFAcquireType
  addr : ℕ
  deriving DecidableEq

structure HTIFGrant where
  requiresAck : Bool
  masterXactId : ℕ
  src : ℕ
  data : ℕ

/-- Everything the interface sees in one cycle; `none` where a message is not valid. -/
structure HTIFInput (c : HTIFConf) where
  hostIn : Option (Fin (2 ^ c.w))
  hostOutReady : Bool
  acquireReady : Bool
  grant : Option HTIFGrant
  grantAckReady : Bool
  pcrReqReady : Fin c.nTiles → Bool
  pcrRep : Fin c.nTiles → Option ℕ
  scrRdata : ℕ → ℕ

/-- The registers. -/
@[ext]
structure HTIF (c : HTIFConf) where
  rxCount : ℕ
  rxShifter : ℕ
  cmd : ℕ
  size : ℕ
  pos : ℕ
  seqno : ℕ
  addr : ℕ
  packetRam : ℕ → ℕ
  txCount : ℕ
  memAcked : Bool
  memGxid : ℕ
  memGsrc : ℕ
  memNeedsAck : Bool
  state : HTIFState
  acqQ : Option HTIFAcquire
  myReset : Fin c.nTiles → Bool
  pcrReadData : ℕ

def cmdReadmem : ℕ := 0
def cmdWritemem : ℕ := 1
def cmdReadcr : ℕ := 2
def cmdWritecr : ℕ := 3
def cmdAck : ℕ := 4
def cmdNack : ℕ := 5

namespace HTIF

variable {c : HTIFConf} (s : HTIF c) (i : HTIFInput c)

/-! ### Wires -/

/-- `rx_shifter_in`: the new subword on top, the older ones moved down. -/
def rxShifterIn (b : ℕ) : ℕ := cat b (64 - c.w) (bits s.rxShifter 63 c.w)

/-- `host.in.valid && host.in.ready`. -/
def rxFire : Option (Fin (2 ^ c.w)) := if s.state = .rx then i.hostIn else none

def rxWordCount : ℕ := s.rxCount / 2 ^ c.subBits

/-- The subword being received is the last of its word. -/
def rxLastSub : Prop := s.rxCount % 2 ^ c.subBits = 2 ^ c.subBits - 1

instance : Decidable s.rxLastSub := inferInstanceAs (Decidable (_ = _))

def pcrAddr : ℕ := bits s.addr 4 0

def pcrCoreid : ℕ := bits s.addr (log2Up c.nTiles - 1 + 20 + 1) 20

def pcrWdata : ℕ := s.packetRam 0

def badMemPacket : Bool :=
  bits s.size (c.lineBits - 1) 0 != 0 || bits s.addr (c.lineBits - 1) 0 != 0

def nack : Bool :=
  if s.cmd = cmdReadmem ∨ s.cmd = cmdWritemem then s.badMemPacket
  else if s.cmd = cmdReadcr ∨ s.cmd = cmdWritecr then s.size != 1
  else true

def txSubwordCount : ℕ := s.txCount % 2 ^ c.subBits

def txWordCount : ℕ := s.txCount / 2 ^ c.subBits

/-- `packet_ram_raddr`, and where a received word goes: one below the word count, in
`log2Up(packet_ram_depth)` bits. -/
def ramIndex (c : HTIFConf) (wordCount : ℕ) : ℕ :=
  wrap c.lineBits ((wordCount % 2 ^ c.lineBits : ℕ) - 1)

def rxDone (nextCmd : ℕ) : Prop :=
  s.rxLastSub ∧
    if s.rxWordCount = 0 then nextCmd ≠ cmdWritemem ∧ nextCmd ≠ cmdWritecr
    else s.rxWordCount = s.size ∨ s.rxWordCount % 2 ^ c.lineBits = 0

instance (nextCmd : ℕ) : Decidable (s.rxDone nextCmd) := by
  unfold rxDone
  infer_instance

def txSize : ℕ :=
  if s.nack = false ∧ (s.cmd = cmdReadmem ∨ s.cmd = cmdReadcr ∨ s.cmd = cmdWritecr) then s.size
  else 0

def txDone : Prop :=
  i.hostOutReady = true ∧ s.txSubwordCount = 2 ^ c.subBits - 1 ∧
    (s.txWordCount = s.txSize ∨
      0 < s.txWordCount ∧ ramIndex c s.txWordCount = 2 ^ c.lineBits - 1)

instance : Decidable (s.txDone i) := by
  unfold txDone
  infer_instance

/-- `acq_q.io.enq.valid && acq_q.io.enq.ready`, for a queue of one entry. -/
def acqEnq : Prop := (s.state = .memRreq ∨ s.state = .memWreq) ∧ s.acqQ = none

instance : Decidable s.acqEnq := inferInstanceAs (Decidable (_ ∧ _))

def initAddr : ℕ := s.addr / 2 ^ c.lineBits

def acqEnqBits : HTIFAcquire :=
  ⟨if s.cmd = cmdWritemem then .uncachedWrite else .uncachedRead, s.initAddr % 2 ^ c.addrBits⟩

/-- The acquire that the memory takes. -/
def acquireFire : Option HTIFAcquire := if i.acquireReady = true then s.acqQ else none

/-- `mem_req_data`: the words of the line, the first one lowest. -/
def memReqData (c : HTIFConf) (ram : ℕ → ℕ) : ℕ :=
  (List.range c.packetRamDepth).foldl (fun data j => cat (ram j) (64 * j) data) 0

/-- Word `j` of a line. -/
def lineWord (data j : ℕ) : ℕ := bits data ((j + 1) * 64 - 1) (j * 64)

/-- The request is for the interface's own registers. -/
def scrReq : Prop :=
  s.state = .pcrReq ∧ s.pcrCoreid = 2 ^ (log2Up c.nTiles + 1) - 1

instance : Decidable s.scrReq := inferInstanceAs (Decidable (_ ∧ _))

def scrAddr : ℕ := bits s.addr (log2Up c.nSCR - 1) 0

/-- `scr_rdata`: the first two registers are fixed. -/
def scrRdata (j : ℕ) : ℕ :=
  if j = 0 then c.nTiles
  else if j = 1 then 8 * 2 ^ c.lineBits * 2 ^ c.addrBits / 2 ^ 20
  else i.scrRdata j

/-- The request is for tile `t`'s reset register. -/
def resetReq (t : Fin c.nTiles) : Prop :=
  s.state = .pcrReq ∧ s.pcrCoreid = t ∧ s.pcrAddr = c.pcrReset % 2 ^ 5

instance (t : Fin c.nTiles) : Decidable (s.resetReq t) := inferInstanceAs (Decidable (_ ∧ _))

/-- `cpu.pcr_req.valid`: the request is for another register of tile `t`. -/
def pcrReqValid (t : Fin c.nTiles) : Prop :=
  s.state = .pcrReq ∧ s.pcrCoreid = t ∧ s.pcrAddr ≠ c.pcrReset % 2 ^ 5

instance (t : Fin c.nTiles) : Decidable (s.pcrReqValid t) := inferInstanceAs (Decidable (_ ∧ _))

/-- `cpu.pcr_req.fire`. -/
def pcrReqFire (t : Fin c.nTiles) : Prop := s.pcrReqValid t ∧ i.pcrReqReady t = true

instance (t : Fin c.nTiles) : Decidable (s.pcrReqFire i t) := inferInstanceAs (Decidable (_ ∧ _))

def txCmd : ℕ := if s.nack = true then cmdNack else cmdAck

/-- `Cat(addr, seqno, tx_size, tx_cmd)`. -/
def header (addr seqno size cmd : ℕ) : ℕ := cat (cat (cat addr 8 seqno) 12 size) 4 cmd

def txData : ℕ :=
  if s.txWordCount = 0 then header s.addr s.seqno s.txSize s.txCmd
  else if s.cmd = cmdReadcr ∨ s.cmd = cmdWritecr then s.pcrReadData
  else s.packetRam (ramIndex c s.txWordCount)

/-- Subword `j` of a word. -/
def subword (c : HTIFConf) (x j : ℕ) : ℕ := x / 2 ^ (c.w * j) % 2 ^ c.w

/-- `host.out.valid && host.out.ready`, with `host.out.bits`. -/
def txFire : Option ℕ :=
  if s.state = .tx ∧ i.hostOutReady = true then some (subword c s.txData s.txSubwordCount) else none

/-! ### The clock edge -/

/-- Where a received packet goes next; `word` is `rx_shifter_in`. -/
def rxNext (word : ℕ) : HTIFState :=
  let nextCmd := bits word 3 0
  let rxCmd := if s.rxWordCount = 0 then nextCmd else s.cmd
  if s.rxDone nextCmd then
    if rxCmd = cmdReadmem then .memRreq
    else if rxCmd = cmdWritemem then .memWreq
    else if rxCmd = cmdReadcr ∨ rxCmd = cmdWritecr then .pcrReq
    else .tx
  else .rx

/-- The state before the control registers have their say. -/
def memState : HTIFState :=
  match s.state with
  | .rx => match i.hostIn with
    | some b => s.rxNext (s.rxShifterIn b)
    | none => .rx
  | .memWreq => if s.acqQ = none then .memWresp else .memWreq
  | .memRreq => if s.acqQ = none then .memRresp else .memRreq
  | .memWresp => if s.memAcked = true then .memFinish else .memWresp
  | .memRresp => if i.grant.isSome = true then .memFinish else .memRresp
  | .memFinish =>
    if i.grantAckReady = true then if s.cmd = cmdReadmem ∨ s.pos = 1 then .tx else .rx
    else .memFinish
  | .tx =>
    if s.txDone i then if s.cmd = cmdReadmem ∧ s.pos ≠ 0 then .memRreq else .rx else .tx
  | .pcrReq => .pcrReq
  | .pcrResp => .pcrResp

/-- What tile `t` does to the state and to `pcrReadData`. -/
def tileStep (r : HTIFState × ℕ) (t : Fin c.nTiles) : HTIFState × ℕ :=
  let r := if s.pcrReqFire i t then (.pcrResp, r.2) else r
  let r := if s.resetReq t then (.tx, (s.myReset t).toNat) else r
  match i.pcrRep t with
  | some d => (.tx, d)
  | none => r

/-- The state and `pcrReadData` after the edge. -/
def pcrNext : HTIFState × ℕ :=
  let r := (List.finRange c.nTiles).foldl (s.tileStep i) (s.memState i, s.pcrReadData)
  if s.scrReq then (.tx, scrRdata i s.scrAddr) else r

/-- The line is finished: the position and the address move to the next one. -/
def lineDone : Prop := s.state = .memFinish ∧ i.grantAckReady = true

instance : Decidable (s.lineDone i) := inferInstanceAs (Decidable (_ ∧ _))

/-- The reply is over. -/
def replyDone : Prop := s.state = .tx ∧ s.txDone i ∧ s.txWordCount = s.txSize

instance : Decidable (s.replyDone i) := inferInstanceAs (Decidable (_ ∧ _))

/-- `rx_shifter_in`, in a cycle in which it completes a word. -/
def rxWord : Option ℕ :=
  match s.rxFire i with
  | some b => if s.rxLastSub then some (s.rxShifterIn b) else none
  | none => none

/-- `rx_shifter_in`, in a cycle in which it completes a header. -/
def rxHeader : Option ℕ :=
  match s.rxFire i with
  | some b => if s.rxCount = 2 ^ c.subBits - 1 then some (s.rxShifterIn b) else none
  | none => none

/-- The line that is read while the state is `mem_rresp`. -/
def readGrant : Option HTIFGrant := if s.state = .memRresp then i.grant else none

/-- `packet_ram`: a line that was read, or a word that was received. -/
def packetRamNext : ℕ → ℕ :=
  match s.readGrant i, s.rxWord i with
  | some g, _ => fun j => if j < c.packetRamDepth then lineWord g.data j else s.packetRam j
  | none, some word => Function.update s.packetRam (ramIndex c s.rxWordCount) word
  | none, none => s.packetRam

def memAckedNext : Bool :=
  match s.state with
  | .memRresp => false
  | .memWresp => !s.memAcked && i.grant.isSome
  | _ => s.memAcked || i.grant.isSome

/-- One clock edge. -/
def next : HTIF c where
  rxCount :=
    if s.replyDone i then 0
    else if (s.rxFire i).isSome then (s.rxCount + 1) % 2 ^ c.rxCountW else s.rxCount
  rxShifter := match s.rxFire i with
    | some b => s.rxShifterIn b
    | none => s.rxShifter
  cmd := (s.rxHeader i).elim s.cmd fun word => bits word 3 0
  size := (s.rxHeader i).elim s.size fun word => bits word 15 4
  pos :=
    if s.lineDone i then wrap (12 - c.lineBits) ((s.pos : ℤ) - 1)
    else (s.rxHeader i).elim s.pos fun word => bits word 15 (4 + c.lineBits)
  seqno := (s.rxHeader i).elim s.seqno fun word => bits word 23 16
  addr :=
    if s.lineDone i then (s.addr + 2 ^ c.lineBits) % 2 ^ 40
    else (s.rxHeader i).elim s.addr fun word => bits word 63 24
  packetRam := s.packetRamNext i
  txCount :=
    if s.replyDone i then 0
    else if (s.txFire i).isSome then (s.txCount + 1) % 2 ^ c.rxCountW else s.txCount
  memAcked := s.memAckedNext i
  memGxid := i.grant.elim s.memGxid HTIFGrant.masterXactId
  memGsrc := i.grant.elim s.memGsrc HTIFGrant.src
  memNeedsAck := i.grant.elim s.memNeedsAck HTIFGrant.requiresAck
  state := (s.pcrNext i).1
  acqQ := if s.acqEnq then some s.acqEnqBits else if i.acquireReady = true then none else s.acqQ
  myReset := fun t =>
    if s.resetReq t ∧ s.cmd = cmdWritecr then decide (s.pcrWdata % 2 = 1) else s.myReset t
  pcrReadData := (s.pcrNext i).2

/-- Out of reset. -/
structure IsReset (s : HTIF c) : Prop where
  rxCount : s.rxCount = 0
  txCount : s.txCount = 0
  memAcked : s.memAcked = false
  state : s.state = .rx
  acqQ : s.acqQ = none
  myReset : ∀ t, s.myReset t = true

/-- The registers out of reset, the uninitialised ones zero. -/
def reset (c : HTIFConf) : HTIF c where
  rxCount := 0
  rxShifter := 0
  cmd := 0
  size := 0
  pos := 0
  seqno := 0
  addr := 0
  packetRam := fun _ => 0
  txCount := 0
  memAcked := false
  memGxid := 0
  memGsrc := 0
  memNeedsAck := false
  state := .rx
  acqQ := none
  myReset := fun _ => true
  pcrReadData := 0

theorem isReset_reset (c : HTIFConf) : (reset c).IsReset :=
  ⟨rfl, rfl, rfl, rfl, rfl, fun _ => rfl⟩

end HTIF

/-! ### The log of a packet -/

/-- An acquire that the memory took, with its data. -/
structure LineAcquire where
  aType : HTIFAcquireType
  addr : ℕ
  data : ℕ

/-- An access to a control register, of a tile or of the interface itself. -/
structure CrAccess (c : HTIFConf) where
  tile : Option (Fin c.nTiles)
  write : Bool
  addr : ℕ

/-- What happened since the header of the current packet was received: the payload, the acquires
the memory took, the words of the lines it granted to be read, the control registers accessed, the
subwords sent back, the lines finished, and the cycles in which nothing the interface waited for
was withheld. `word` are the subwords of the word being received, and `owed` the acquires that the
memory has not answered. -/
structure PacketLog (c : HTIFConf) where
  word : List ℕ
  header : Option ℕ
  payload : List ℕ
  acquires : List LineAcquire
  readWords : List ℕ
  accesses : List (CrAccess c)
  sent : List ℕ
  lines : ℕ
  unstalled : ℕ
  owed : ℕ

namespace HTIF

variable {c : HTIFConf}

/-- No packet is being served: a header is awaited, or part of one was received. -/
def Over (s : HTIF c) : Prop := s.state = .rx ∧ s.rxCount < 2 ^ c.subBits

instance (s : HTIF c) : Decidable s.Over := inferInstanceAs (Decidable (_ ∧ _))

/-- What the interface waits for is withheld. -/
def Stalled (s : HTIF c) (i : HTIFInput c) : Prop :=
  match s.state with
  | .rx => i.hostIn = none
  | .memRreq | .memWreq => False
  | .memRresp | .memWresp =>
    if s.acqQ.isSome then i.acquireReady = false
    else s.memAcked = false ∧ i.grant.isNone
  | .memFinish => i.grantAckReady = false
  | .tx => i.hostOutReady = false
  | .pcrReq => ∀ t, ¬s.pcrReqFire i t ∧ ¬s.resetReq t
  | .pcrResp => ∀ t, i.pcrRep t = none

instance (s : HTIF c) (i : HTIFInput c) : Decidable (s.Stalled i) := by
  unfold Stalled
  split <;> infer_instance

/-- The control registers that are accessed in a cycle. -/
def crAccesses (s : HTIF c) (i : HTIFInput c) : List (CrAccess c) :=
  ((List.finRange c.nTiles).filterMap fun t =>
    if s.pcrReqFire i t ∨ s.resetReq t then
      some ⟨some t, decide (s.cmd = cmdWritecr), s.pcrAddr⟩
    else none) ++
  if s.scrReq then [⟨none, decide (s.cmd = cmdWritecr), s.scrAddr⟩] else []

end HTIF

namespace PacketLog

variable {c : HTIFConf}

def empty (c : HTIFConf) : PacketLog c := ⟨[], none, [], [], [], [], [], 0, 0, 0⟩

/-- The word completed by subword `b`. -/
def completed (g : PacketLog c) (b : ℕ) : ℕ := Nat.ofDigits (2 ^ c.w) (g.word ++ [b])

/-- What the log notes of a received subword. -/
def receive (s : HTIF c) (b : ℕ) (g : PacketLog c) : PacketLog c :=
  if s.rxLastSub then
    if s.rxWordCount = 0 then { empty c with header := some (g.completed b), owed := g.owed }
    else { g with word := [], payload := g.payload ++ [g.completed b] }
  else { g with word := g.word ++ [b] }

/-- What the log notes of a cycle. -/
def note (s : HTIF c) (i : HTIFInput c) (g : PacketLog c) : PacketLog c :=
  let g' : PacketLog c := { g with
    acquires := g.acquires ++ (s.acquireFire i).toList.map fun a =>
      ⟨a.aType, a.addr, HTIF.memReqData c s.packetRam⟩
    readWords := g.readWords ++ (s.readGrant i).toList.flatMap fun a =>
      (List.range c.packetRamDepth).map (HTIF.lineWord a.data)
    accesses := g.accesses ++ s.crAccesses i
    sent := g.sent ++ (s.txFire i).toList
    lines := if s.lineDone i then g.lines + 1 else g.lines
    unstalled := if s.Over ∨ s.Stalled i then g.unstalled else g.unstalled + 1
    owed := g.owed + (s.acquireFire i).toList.length - i.grant.toList.length }
  match s.rxFire i with
  | some b => g'.receive s b
  | none => g'

end PacketLog

namespace HTIF

variable {c : HTIFConf}

/-- What the tiles and the memory promise. -/
structure EnvOk (s : HTIF c × PacketLog c) (i : HTIFInput c) : Prop where
  tile : ∀ t, i.pcrRep t ≠ none → s.1.state = .pcrResp
  memory : i.grant.isSome = true → 0 < s.2.owed ∨ (s.1.acquireFire i).isSome = true

instance (s : HTIF c × PacketLog c) (i : HTIFInput c) : Decidable (EnvOk s i) :=
  decidable_of_iff ((∀ t, i.pcrRep t ≠ none → s.1.state = .pcrResp) ∧
    (i.grant.isSome = true → 0 < s.2.owed ∨ (s.1.acquireFire i).isSome = true))
    ⟨fun h => ⟨h.1, h.2⟩, fun h => ⟨h.tile, h.memory⟩⟩

/-- The runs of the interface, next to the log. -/
def machine (c : HTIFConf) : Machine (HTIF c × PacketLog c) (HTIFInput c) :=
  ((Machine.clocked IsReset next).observe (PacketLog.empty c) PacketLog.note).restrict EnvOk

end HTIF

end RiscvSoc
