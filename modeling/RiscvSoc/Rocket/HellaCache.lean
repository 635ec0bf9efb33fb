import Mathlib.Data.List.Basic
import Mathlib.Data.List.FinRange
import RiscvSoc.Rocket.AMOALU
import RiscvSoc.Rocket.MSHR

/-!
# The pipeline of the data cache

`HellaCache` from `rocket/src/main/scala/nbdcache.scala`, on its way from a request to a hit: tags
and data are read in the cycle in which a request comes, looked at in the first stage, and answered
from the second. A store or an atomic that hits goes on to the third stage, in which it writes the
data array; the fourth remembers it for one more cycle.

A request in the first stage takes its double word from the newest of the three stages ahead of it
that has it, instead of the array. Its own address is translated in that cycle, and the data of a
store comes in that cycle too, so both are inputs beside the request that follows.

## The data array

An array has a row of `rowwords` double words for each way. When `isNarrowRead` is set, a read
delivers the double word it is after as the first of its row, and only that one is kept. What a
double word reads as while it is being written is left open (`readDuringWrite`).

## What is left out

Misses, replays, probes and write-backs, since there are none as long as everything hits: the miss
file is free, so there is no secondary miss, and nobody writes the metadata, which are a parameter.
The codes of the array, which change no data that was written without an error. Whether a request
can be taken, and the translation, are inputs.
-/

namespace RiscvSoc

open Bits

/-! ### Parameters -/

structure HellaCacheConfig extends Rocket.DCacheConfig where
  ways : ℕ
  /-- There are `2 ^ rowwordbits` double words in a row. -/
  rowwordbits : ℕ
  pgidxbits : ℕ
  isNarrowRead : Bool
  lrscCycles : ℕ
  row_le : 3 + rowwordbits ≤ offbits
  off_le : offbits ≤ untagbits
  /-- The index of a set is the same in a virtual address. -/
  untag_le : untagbits ≤ pgidxbits

namespace HellaCacheConfig

variable (c : HellaCacheConfig)

/-- The index of a double word in its row. -/
def wordIdx (addr : ℕ) : Fin (2 ^ c.rowwordbits) :=
  ⟨addr / 2 ^ 3 % 2 ^ c.rowwordbits, Nat.mod_lt _ (Nat.two_pow_pos _)⟩

def rowoffbits : ℕ := 3 + c.rowwordbits

/-- The row of an address. -/
def row (addr : ℕ) : ℕ := addr / 2 ^ c.rowoffbits % 2 ^ (c.untagbits - c.rowoffbits)

/-- The set of an address. -/
def set (addr : ℕ) : ℕ := addr / 2 ^ c.offbits % 2 ^ (c.untagbits - c.offbits)

end HellaCacheConfig

/-- The tags and states of the lines, for each set and way. A line is in one way. -/
structure MetaDataArray (P : CoherencePolicy) (c : HellaCacheConfig) where
  tag : ℕ → Fin c.ways → ℕ
  state : ℕ → Fin c.ways → P.ClientState
  distinct : ∀ set w w', P.isValid (state set w) = true → P.isValid (state set w') = true →
    tag set w = tag set w' → w = w'

/-! ### Requests -/

/-- A request to the cache. -/
structure HellaReq where
  typ : MemTyp
  addr : ℕ
  data : Word
  tag : ℕ
  cmd : MemCmd

/-- The address as the store generator and the ALU see it. -/
def HellaReq.off (r : HellaReq) : Word := BitVec.ofNat 64 r.addr

/-- `misaligned`. -/
def HellaReq.misaligned (r : HellaReq) : Bool :=
  (r.typ == .h || r.typ == .hu) && decide (r.addr % 2 ≠ 0) ||
  (r.typ == .w || r.typ == .wu) && decide (r.addr % 4 ≠ 0) ||
  r.typ == .d && decide (r.addr % 8 ≠ 0)

/-- The inputs of one cycle. -/
structure HellaInput where
  reqValid : Bool
  reqReady : Bool
  /-- `io.cpu.req.bits`, with the data of the request before. -/
  req : HellaReq
  /-- Of the request before, as the next three are. -/
  kill : Bool
  ppn : ℕ
  s1Nack : Bool
  mshrReady : Bool
  sret : Bool
  /-- What a double word reads as in the cycle in which it is written. -/
  readDuringWrite : Word

/-! ### Registers -/

structure HellaCache (P : CoherencePolicy) (c : HellaCacheConfig) where
  s1Valid : Bool
  s1Req : HellaReq
  s1ClkEn : Bool
  s2Valid : Bool
  s2Req : HellaReq
  s2NackHit : Bool
  s2TagMatchWay : Fin c.ways → Bool
  s2State : Fin c.ways → P.ClientState
  s2Data : Fin c.ways → Fin (2 ^ c.rowwordbits) → Word
  s2StoreBypass : Bool
  s2StoreBypassData : Word
  s3Valid : Bool
  s3Req : HellaReq
  s3Way : Fin c.ways → Bool
  s4Valid : Bool
  s4Req : HellaReq
  lrscCount : ℕ
  lrscAddr : ℕ
  /-- The address registers of the two arrays. -/
  metaSet : ℕ
  readIdx : Fin (2 ^ c.rowwordbits)
  /-- What the data array has read. -/
  readData : Fin c.ways → Fin (2 ^ c.rowwordbits) → Word
  data : Fin c.ways → ℕ → Fin (2 ^ c.rowwordbits) → Word

/-- `Mux1H` over the ways, of which at most one is selected. With none selected nobody looks at
it. -/
def muxWay {n : ℕ} {α : Type} (sel : Fin n → Bool) (v : Fin n → α) : Option α :=
  ((List.finRange n).find? sel).map v

namespace HellaCache

variable {P : CoherencePolicy} [DecidableEq P.ClientState] {c : HellaCacheConfig}
variable (md : MetaDataArray P c) (s : HellaCache P c) (i : HellaInput)

/-! ### The first stage -/

def s1ValidMasked : Bool := s.s1Valid && !i.kill

def s1Addr : ℕ := cat i.ppn c.pgidxbits (s.s1Req.addr % 2 ^ c.pgidxbits)

def s1TagEqWay (w : Fin c.ways) : Bool :=
  decide (md.tag s.metaSet w = s.s1Addr i / 2 ^ c.untagbits)

def s1TagMatchWay (w : Fin c.ways) : Bool :=
  s.s1TagEqWay md i w && P.isValid (md.state s.metaSet w)

def s1Writeback : Bool := s.s1ClkEn && !s.s1Valid

/-- `data.io.resp`. -/
def dataResp (w : Fin c.ways) (k : Fin (2 ^ c.rowwordbits)) : Word :=
  if c.isNarrowRead && decide (k.val = 0) then s.readData w s.readIdx else s.readData w k

/-! ### The second stage -/

def s2HitState : Option P.ClientState := muxWay s.s2TagMatchWay s.s2State

def s2Hit : Bool :=
  s.s2HitState.any fun st => P.isHit s.s2Req.cmd st && decide (st = P.newStateOnHit s.s2Req.cmd st)

def lrscValid : Bool := decide (s.lrscCount ≠ 0)

def s2LrscAddrMatch : Bool :=
  s.lrscValid && decide (s.lrscAddr = s.s2Req.addr / 2 ^ c.offbits)

def s2ScFail : Bool := s.s2Req.cmd == .xsc && !s.s2LrscAddrMatch

def s2Nack : Bool := s.s2NackHit || !s.s2Hit && !i.mshrReady

def s2ValidMasked : Bool := s.s2Valid && !s.s2Nack i

def s2DataMuxed : Fin (2 ^ c.rowwordbits) → Word :=
  (muxWay s.s2TagMatchWay s.s2Data).getD fun _ => 0

def s2WordIdx : Fin (2 ^ c.rowwordbits) :=
  if c.isNarrowRead then ⟨0, Nat.two_pow_pos _⟩ else c.wordIdx s.s2Req.addr

def s2DataWord : Word :=
  if s.s2StoreBypass then s.s2StoreBypassData else s.s2DataMuxed s.s2WordIdx

def amoaluOut : Word :=
  AMOALU.out s.s2Req.off s.s2Req.cmd s.s2Req.typ s.s2DataWord s.s2Req.data

/-- The request hits, and does what it asks for. -/
def s2Performs : Bool := s.s2ValidMasked i && s.s2Hit && !s.s2ScFail

/-! ### The answer -/

def respValid : Bool := s.s2ValidMasked i && s.s2Hit

def s2Sc : Bool := s.s2Req.cmd == .xsc

def respHasData : Bool := s.s2Req.cmd.isRead || s.s2Sc

/-- `io.cpu.resp.bits.data`. -/
def respData : Word := LoadGen.word s.s2Req.typ s.s2Req.off s.s2DataWord

/-- `io.cpu.resp.bits.data_subword`. -/
def respDataSubword : Word :=
  LoadGen.byte s.s2Req.typ s.s2Req.off s.s2DataWord s.s2Sc |||
    BitVec.setWidth 64 (.ofBool s.s2ScFail)

/-! ### Store-to-load bypassing -/

/-- The double word of `r` is the one the first stage is after. -/
def sameWord (r : HellaReq) : Bool := decide (s.s1Addr i / 2 ^ 3 = r.addr / 2 ^ 3)

/-- The newest of the three stages that has the double word. -/
def bypass : Option Word :=
  if (s.s2ValidMasked i && !s.s2ScFail) && s.sameWord i s.s2Req && s.s2Req.cmd.isWrite then
    some s.amoaluOut
  else if s.s3Valid && s.sameWord i s.s3Req && s.s3Req.cmd.isWrite then some s.s3Req.data
  else if s.s4Valid && s.sameWord i s.s4Req && s.s4Req.cmd.isWrite then some s.s4Req.data
  else none

/-! ### One cycle -/

/-- The third stage writes this double word. -/
def writes (w : Fin c.ways) (row : ℕ) (k : Fin (2 ^ c.rowwordbits)) : Bool :=
  s.s3Valid && s.s3Way w && decide (c.row s.s3Req.addr = row) && decide (c.wordIdx s.s3Req.addr = k)

def lrscCountNext : ℕ :=
  if i.sret then 0
  else if s.s2ValidMasked i && s.s2Hit && s.s2Req.cmd == .xsc then 0
  else if s.s2ValidMasked i && s.s2Hit && s.s2Req.cmd == .xlr && !s.lrscValid then c.lrscCycles - 1
  else s.lrscCount - 1

def next : HellaCache P c where
  s1Valid := i.reqValid && i.reqReady
  s1Req := if i.reqValid then i.req else s.s1Req
  s1ClkEn := i.reqValid
  s2Valid := s.s1ValidMasked i
  s2Req :=
    if s.s1ClkEn then
      { s.s1Req with
        addr := s.s1Addr i
        data := if s.s1Req.cmd.isWrite then i.req.data else s.s2Req.data }
    else s.s2Req
  s2NackHit := if s.s1Valid then i.s1Nack else s.s2NackHit
  s2TagMatchWay w := if s.s1ClkEn then s.s1TagMatchWay md i w else s.s2TagMatchWay w
  s2State w := if s.s1ClkEn then md.state s.metaSet w else s.s2State w
  s2Data w k :=
    if s.s1ClkEn && s.s1TagEqWay md i w && (decide (k.val = 0) || !c.isNarrowRead || s.s1Writeback)
    then s.dataResp w k
    else s.s2Data w k
  s2StoreBypass := if s.s1ClkEn then (s.bypass i).isSome else s.s2StoreBypass
  s2StoreBypassData :=
    if s.s1ClkEn then (s.bypass i).getD s.s2StoreBypassData else s.s2StoreBypassData
  s3Valid := s.s2Performs i && s.s2Req.cmd.isWrite
  s3Req := if s.s2Valid && s.s2Req.cmd.isWrite then { s.s2Req with data := s.amoaluOut }
    else s.s3Req
  s3Way := if s.s2Valid && s.s2Req.cmd.isWrite then s.s2TagMatchWay else s.s3Way
  s4Valid := s.s3Valid
  s4Req := if s.s3Valid && i.reqValid then s.s3Req else s.s4Req
  lrscCount := s.lrscCountNext i
  lrscAddr :=
    if s.s2ValidMasked i && s.s2Hit && s.s2Req.cmd == .xlr then s.s2Req.addr / 2 ^ c.offbits
    else s.lrscAddr
  metaSet := if i.reqValid then c.set i.req.addr else s.metaSet
  readIdx := if i.reqValid then c.wordIdx i.req.addr else s.readIdx
  readData w k :=
    if i.reqValid then
      if s.writes w (c.row i.req.addr) k then i.readDuringWrite else s.data w (c.row i.req.addr) k
    else s.readData w k
  data w row k := if s.writes w row k then s.s3Req.data else s.data w row k

end HellaCache

end RiscvSoc
