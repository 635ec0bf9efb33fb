import RiscvSoc.Lib.Queue
import RiscvSoc.Lib.ShiftReg

/-!
# The narrow memory link

`MemSerdes` and `MemDesser` from `uncore/src/main/scala/memserdes.scala`. The first sends memory
commands and the beats of writes over a link of `w` bits, and the second gathers them on the other
side; the beats of a read come back the same way. A write is a command and `dataBeats` beats, and a
read is a command that is answered with `dataBeats` beats. Each side counts chunks and beats for
itself.

The number of beats is a power of two and more than one. `MemSerdes` does not look at
`io.wide.resp.ready`: the link has no way to hold a response back. `MemSerdes.data_recv_cnt`, which
nobody reads, is left out.
-/

namespace RiscvSoc

namespace Serdes

open Bits

/-! ### Parameters -/

/-- `MemoryIFConfiguration`, and the width of the link. -/
structure MemSerdesConf where
  addrBits : ℕ
  dataBits : ℕ
  tagBits : ℕ
  lgBeats : ℕ
  w : ℕ
  w_pos : 0 < w
  /-- `require(dbits >= abits)`. -/
  abits_le : addrBits + tagBits + 1 ≤ dataBits
  /-- The slice of `in_buf` that is kept is not empty. -/
  w_lt : w < dataBits + tagBits

namespace MemSerdesConf

variable (c : MemSerdesConf)

def dataBeats : ℕ := 2 ^ (c.lgBeats + 1)

def abits : ℕ := c.addrBits + c.tagBits + 1

def dbits : ℕ := c.dataBits

def rbits : ℕ := c.dataBits + c.tagBits

instance instNeZeroDataBeats : NeZero c.dataBeats := ⟨(Nat.two_pow_pos (c.lgBeats + 1)).ne'⟩

end MemSerdesConf

variable {c : MemSerdesConf}

/-! ### Messages -/

structure MemReqCmd (c : MemSerdesConf) where
  addr : BitVec c.addrBits
  tag : BitVec c.tagBits
  rw : Bool
  deriving DecidableEq

structure MemResp (c : MemSerdesConf) where
  data : BitVec c.dataBits
  tag : BitVec c.tagBits
  deriving DecidableEq

namespace MemReqCmd

def toBits (r : MemReqCmd c) : ℕ := cat (cat r.addr.toNat c.tagBits r.tag.toNat) 1 r.rw.toNat

def fromBits (x : ℕ) : MemReqCmd c where
  addr := BitVec.ofNat _ (x / 2 ^ 1 / 2 ^ c.tagBits)
  tag := BitVec.ofNat _ (x / 2 ^ 1)
  rw := x % 2 ^ 1 == 1

theorem toBits_lt (r : MemReqCmd c) : r.toBits < 2 ^ c.abits :=
  cat_lt (cat_lt r.addr.isLt r.tag.isLt) (Bool.toNat_lt _)

theorem fromBits_toBits (r : MemReqCmd c) : fromBits r.toBits = r := by
  have hrw : r.rw.toNat < 2 ^ 1 := Bool.toNat_lt _
  rw [fromBits, toBits, cat_div hrw, cat_mod hrw, cat_div r.tag.isLt]
  have htag : BitVec.ofNat c.tagBits (cat r.addr.toNat c.tagBits r.tag.toNat) = r.tag := by
    apply BitVec.eq_of_toNat_eq
    rw [BitVec.toNat_ofNat, cat_mod r.tag.isLt]
  rw [htag, BitVec.ofNat_toNat, BitVec.setWidth_eq]
  cases r with
  | mk addr tag rw => cases rw <;> rfl

end MemReqCmd

namespace MemResp

def toBits (r : MemResp c) : ℕ := cat r.data.toNat c.tagBits r.tag.toNat

def fromBits (x : ℕ) : MemResp c where
  data := BitVec.ofNat _ (x / 2 ^ c.tagBits)
  tag := BitVec.ofNat _ x

theorem toBits_lt (r : MemResp c) : r.toBits < 2 ^ c.rbits := cat_lt r.data.isLt r.tag.isLt

theorem fromBits_toBits (r : MemResp c) : fromBits r.toBits = r := by
  have htag : BitVec.ofNat c.tagBits (cat r.data.toNat c.tagBits r.tag.toNat) = r.tag := by
    apply BitVec.eq_of_toNat_eq
    rw [BitVec.toNat_ofNat, cat_mod r.tag.isLt]
  rw [fromBits, toBits, cat_div r.tag.isLt, htag, BitVec.ofNat_toNat, BitVec.setWidth_eq]

end MemResp

/-! ### `MemSerdes` -/

inductive SerState
  | sIdle | sReadAddr | sWriteAddr | sWriteIdle | sWriteData
  deriving DecidableEq

/-- What `MemSerdes` sees in one cycle. -/
structure MemSerdesInput (c : MemSerdesConf) where
  wideReqCmd : Option (MemReqCmd c)
  wideReqData : Option (BitVec c.dataBits)
  narrowReqReady : Bool
  narrowResp : Option ℕ

structure MemSerdes (c : MemSerdesConf) where
  state : SerState
  sendCnt : ℕ
  dataSendCnt : ℕ
  outBuf : ℕ
  recvCnt : ℕ
  respVal : Bool
  inBuf : ℕ

namespace MemSerdes

variable (s : MemSerdes c) (i : MemSerdesInput c)

/-- `io.wide.req_cmd.ready` and the command. -/
def takesCmd : Option (MemReqCmd c) := if s.state = .sIdle then i.wideReqCmd else none

/-- `io.wide.req_data.ready` and the beat. -/
def takesData : Option (BitVec c.dataBits) := if s.state = .sWriteIdle then i.wideReqData else none

def narrowReqValid : Bool :=
  s.state == .sReadAddr || s.state == .sWriteAddr || s.state == .sWriteData

def narrowReqBits : ℕ := s.outBuf % 2 ^ c.w

def adone : Bool := i.narrowReqReady && s.sendCnt == (c.abits - 1) / c.w

def ddone : Bool := i.narrowReqReady && s.sendCnt == (c.dbits - 1) / c.w

/-- `io.wide.resp.bits` under `io.wide.resp.valid`. -/
def wideResp : Option (MemResp c) := if s.respVal then some (.fromBits s.inBuf) else none

def nextState : SerState :=
  match s.state with
  | .sIdle =>
    match i.wideReqCmd with
    | some r => if r.rw then .sWriteAddr else .sReadAddr
    | none => .sIdle
  | .sReadAddr => if s.adone i then .sIdle else .sReadAddr
  | .sWriteAddr => if s.adone i then .sWriteIdle else .sWriteAddr
  | .sWriteIdle => if i.wideReqData.isSome then .sWriteData else .sWriteIdle
  | .sWriteData =>
    if s.ddone i then
      if s.dataSendCnt = c.dataBeats - 1 then .sIdle else .sWriteIdle
    else .sWriteData

/-- The message is sent. -/
def sendDone : Bool :=
  match s.state with
  | .sReadAddr | .sWriteAddr => s.adone i
  | .sWriteData => s.ddone i
  | _ => false

def nextOutBuf : ℕ :=
  match s.takesData i with
  | some d => d.toNat
  | none =>
    match s.takesCmd i with
    | some r => r.toBits
    | none => if s.narrowReqValid && i.narrowReqReady then s.outBuf / 2 ^ c.w else s.outBuf

/-- The last chunk of a response comes in. -/
def recvDone : Bool := i.narrowResp.isSome && s.recvCnt == (c.rbits - 1) / c.w

/-- One cycle. -/
def next : MemSerdes c where
  state := s.nextState i
  sendCnt :=
    if s.sendDone i then 0
    else if s.narrowReqValid && i.narrowReqReady then
      (s.sendCnt + 1) % 2 ^ log2Up (chunks c.w (max c.abits c.dbits))
    else s.sendCnt
  dataSendCnt :=
    if s.state = .sWriteData ∧ s.ddone i then (s.dataSendCnt + 1) % 2 ^ (c.lgBeats + 1)
    else s.dataSendCnt
  outBuf := s.nextOutBuf i
  recvCnt :=
    if s.recvDone i then 0
    else if i.narrowResp.isSome then (s.recvCnt + 1) % 2 ^ log2Up (chunks c.w c.rbits)
    else s.recvCnt
  respVal := s.recvDone i
  inBuf :=
    match i.narrowResp with
    | some b => shiftIn c.w (chunks c.w c.rbits) s.inBuf b
    | none => s.inBuf

/-- Reset. `in_buf` has no reset value, but its width. -/
structure IsReset : Prop where
  state : s.state = .sIdle
  sendCnt : s.sendCnt = 0
  dataSendCnt : s.dataSendCnt = 0
  recvCnt : s.recvCnt = 0
  respVal : s.respVal = false
  inBuf : s.inBuf < 2 ^ (chunks c.w c.rbits * c.w)

end MemSerdes

/-! ### `MemDesser` -/

inductive DesState
  | sCmdRecv | sCmd | sDataRecv | sData | sReply
  deriving DecidableEq

/-- What `MemDesser` sees in one cycle. -/
structure MemDesserInput (c : MemSerdesConf) where
  narrowReqValid : Bool
  narrowReqBits : ℕ
  wideReqCmdReady : Bool
  wideReqDataReady : Bool
  wideResp : Option (MemResp c)

structure MemDesser (c : MemSerdesConf) where
  state : DesState
  recvCnt : ℕ
  dataRecvCnt : ℕ
  inBuf : ℕ
  dataq : Queue (MemResp c) c.dataBeats

namespace MemDesser

variable (s : MemDesser c) (i : MemDesserInput c)

def narrowReqReady : Bool := s.state == .sCmdRecv || s.state == .sDataRecv

def dataqInput : QueueInput (MemResp c) := ⟨i.wideResp, s.recvCnt == (c.rbits - 1) / c.w⟩

/-- `io.narrow.resp.bits` under `io.narrow.resp.valid`. -/
def narrowResp : Option ℕ :=
  (s.dataq.deq false (s.dataqInput i)).map fun r => chunk c.w r.toBits s.recvCnt

def adone : Bool := i.narrowReqValid && s.recvCnt == (c.abits - 1) / c.w

def ddone : Bool := i.narrowReqValid && s.recvCnt == (c.dbits - 1) / c.w

def rdone : Bool := (s.narrowResp i).isSome && s.recvCnt == (c.rbits - 1) / c.w

/-- `io.wide.req_cmd.bits`. -/
def wideReqCmd : MemReqCmd c :=
  .fromBits (s.inBuf / 2 ^ ((chunks c.w c.rbits - chunks c.w c.abits) * c.w))

/-- `io.wide.req_data.bits.data`. -/
def wideReqData : BitVec c.dataBits :=
  .ofNat _ (s.inBuf / 2 ^ ((chunks c.w c.rbits - chunks c.w c.dbits) * c.w))

def lastBeat : Bool := s.dataRecvCnt == c.dataBeats - 1

def nextState : DesState :=
  if s.rdone i && s.lastBeat then .sCmdRecv
  else
    match s.state with
    | .sCmdRecv => if s.adone i then .sCmd else .sCmdRecv
    | .sCmd =>
      if i.wideReqCmdReady then if s.wideReqCmd.rw then .sDataRecv else .sReply else .sCmd
    | .sDataRecv => if s.ddone i then .sData else .sDataRecv
    | .sData =>
      if i.wideReqDataReady then if s.lastBeat then .sCmdRecv else .sDataRecv else .sData
    | .sReply => .sReply

/-- The last chunk of a message comes in, or the last chunk of a response leaves. -/
def chunksDone : Bool :=
  s.rdone i || match s.state with
    | .sCmdRecv => s.adone i
    | .sDataRecv => s.ddone i
    | _ => false

/-- A chunk comes in or leaves. -/
def moves : Bool := i.narrowReqValid && s.narrowReqReady || (s.narrowResp i).isSome

/-- One cycle. -/
def next : MemDesser c where
  state := s.nextState i
  recvCnt :=
    if s.chunksDone i then 0
    else if s.moves i then (s.recvCnt + 1) % 2 ^ log2Up (chunks c.w c.rbits)
    else s.recvCnt
  dataRecvCnt :=
    if s.rdone i || s.state == .sData && i.wideReqDataReady then
      (s.dataRecvCnt + 1) % 2 ^ (c.lgBeats + 1)
    else s.dataRecvCnt
  inBuf :=
    if s.moves i then shiftIn c.w (chunks c.w c.rbits) s.inBuf i.narrowReqBits else s.inBuf
  dataq := s.dataq.next false false (s.dataqInput i)

structure IsReset : Prop where
  state : s.state = .sCmdRecv
  recvCnt : s.recvCnt = 0
  dataRecvCnt : s.dataRecvCnt = 0
  inBuf : s.inBuf < 2 ^ (chunks c.w c.rbits * c.w)
  dataq : s.dataq.IsReset

end MemDesser

/-! ### The link -/

/-- What the two wide ends see in one cycle. -/
structure MemLinkInput (c : MemSerdesConf) where
  reqCmd : Option (MemReqCmd c)
  reqData : Option (BitVec c.dataBits)
  respReady : Bool
  memReqCmdReady : Bool
  memReqDataReady : Bool
  memResp : Option (MemResp c)

/-- The two sides, connected. -/
structure MemLink (c : MemSerdesConf) where
  ser : MemSerdes c
  des : MemDesser c

namespace MemLink

variable (s : MemLink c) (i : MemLinkInput c)

def desInput : MemDesserInput c where
  narrowReqValid := s.ser.narrowReqValid
  narrowReqBits := s.ser.narrowReqBits
  wideReqCmdReady := i.memReqCmdReady
  wideReqDataReady := i.memReqDataReady
  wideResp := i.memResp

def serInput : MemSerdesInput c where
  wideReqCmd := i.reqCmd
  wideReqData := i.reqData
  narrowReqReady := s.des.narrowReqReady
  narrowResp := s.des.narrowResp (s.desInput i)

/-- One cycle. -/
def next : MemLink c where
  ser := s.ser.next (s.serInput i)
  des := s.des.next (s.desInput i)

structure IsReset : Prop where
  ser : s.ser.IsReset
  des : s.des.IsReset

end MemLink

end Serdes

end RiscvSoc
