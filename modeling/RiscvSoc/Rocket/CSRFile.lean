import RiscvSoc.Lib.Machine
import RiscvSoc.Rocket.DecodeTable

/-!
# Control and status registers

`CSRFile` has one port to its registers, which the processor and the host share. The processor has
priority: a request of the host waits in a register until the processor leaves the port alone for a
cycle. Two of the registers are mailboxes. The processor writes `tohost` only while it is empty, and
a read by the host empties it; the host writes `fromhost` only while that is empty.

The address is decoded by the table generator of `DecodeLogic`, with don't-cares at the addresses of
no register, so that such an address may select any of them. `AddrDecoder` is what can be relied on,
and `AddrDecoder.generated` is the decoder of the generator.
-/

namespace RiscvSoc

/-! ### Addresses -/

/-- `CSRs`. -/
inductive CSR
  | fflags
  | frm
  | fcsr
  | stats
  | sup0
  | sup1
  | epc
  | badvaddr
  | ptbr
  | asid
  | count
  | compare
  | evec
  | cause
  | status
  | hartid
  | impl
  | fatc
  | sendIpi
  | clearIpi
  | reset
  | tohost
  | fromhost
  | cycle
  | time
  | instret
  | uarch (k : Fin 16)
  deriving DecidableEq

namespace CSR

def addr : CSR → BitVec 12
  | fflags => 0x1
  | frm => 0x2
  | fcsr => 0x3
  | stats => 0xc0
  | sup0 => 0x500
  | sup1 => 0x501
  | epc => 0x502
  | badvaddr => 0x503
  | ptbr => 0x504
  | asid => 0x505
  | count => 0x506
  | compare => 0x507
  | evec => 0x508
  | cause => 0x509
  | status => 0x50a
  | hartid => 0x50b
  | impl => 0x50c
  | fatc => 0x50d
  | sendIpi => 0x50e
  | clearIpi => 0x50f
  | reset => 0x51d
  | tohost => 0x51e
  | fromhost => 0x51f
  | cycle => 0xc00
  | time => 0xc01
  | instret => 0xc02
  | uarch k => 0xcc0 + BitVec.ofNat 12 k

/-- `CSRs.all`. -/
def all : List CSR :=
  [fflags, frm, fcsr, stats, sup0, sup1, epc, badvaddr, ptbr, asid, count, compare, evec, cause,
    status, hartid, impl, fatc, sendIpi, clearIpi, reset, tohost, fromhost, cycle, time, instret] ++
    (List.finRange 16).map uarch

/-- The bit of the decoder that selects the register. -/
def index (c : CSR) : ℕ := all.idxOf c

theorem mem_all (c : CSR) : c ∈ all := by
  cases c with
  | uarch k => exact List.mem_append_right _ (List.mem_map_of_mem (List.mem_finRange k))
  | _ => decide

theorem index_lt (c : CSR) : c.index < 42 := List.idxOf_lt_length_of_mem c.mem_all

theorem index_injective {c c' : CSR} (h : c.index = c'.index) : c = c' :=
  (List.idxOf_inj c.mem_all).mp h

theorem pairwise_addr : all.Pairwise fun c c' => c.addr ≠ c'.addr := by decide

end CSR

/-- A decoder of the addresses of the registers; at another address, anything may be selected. -/
structure AddrDecoder where
  sel : BitVec 12 → CSR → Bool
  sel_addr : ∀ c c', sel c.addr c' = decide (c = c')

namespace AddrDecoder

/-- A number as a pattern without don't-cares. -/
def uint (width value : ℕ) (h : value < 2 ^ width) : Pattern where
  width := width
  value := value
  mask := 0
  value_lt := h
  mask_lt := Nat.two_pow_pos width
  disjoint := Nat.and_zero value

/-- One line of `outs`. -/
def out (c : CSR) : Pattern × Pattern :=
  (uint 12 c.addr.toNat c.addr.isLt,
    uint 42 (2 ^ c.index) (Nat.pow_lt_pow_right Nat.one_lt_two c.index_lt))

/-- `default`: don't-cares only. -/
def dontCare : Pattern where
  width := 42
  value := 0
  mask := 2 ^ 42 - 1
  value_lt := Nat.two_pow_pos 42
  mask_lt := Nat.sub_lt (Nat.two_pow_pos 42) Nat.one_pos
  disjoint := Nat.zero_and _

theorem matches_out {c : CSR} {a : ℕ} : (out c).1.Matches a ↔ a = c.addr.toNat := by
  constructor
  · intro h
    exact Nat.eq_of_testBit_eq fun i => h i (Nat.zero_testBit i)
  · rintro rfl
    exact Bits.self_mem_cube _ _

theorem nonOverlapping_outs : DecodeLogic.NonOverlapping (CSR.all.map out) := by
  refine List.pairwise_map.mpr (CSR.pairwise_addr.imp fun {c c'} hne a ha => hne ?_)
  exact BitVec.eq_of_toNat_eq ((matches_out.mp ha.1).symm.trans (matches_out.mp ha.2))

theorem keyWidth_outs : DecodeLogic.keyWidth (CSR.all.map out) = 12 := by
  rw [DecodeLogic.keyWidth, List.map_map]
  rfl

/-- `d(0)`: the bits that the generator builds. -/
def outputs (ord : SetOrder) : List (BitVec 12 → Bool) :=
  ((DecodeLogic.apply ord [] BitVec.toNat dontCare (CSR.all.map out)).map (·.1)).getD []

theorem implements_outputs (ord : SetOrder) :
    DecodeLogic.Implements BitVec.toNat dontCare (CSR.all.map out) (outputs ord) := by
  have hcache : DecodeLogic.Cache.Consistent (BitVec.toNat : BitVec 12 → ℕ)
      (DecodeLogic.keyWidth (CSR.all.map out)) (CSR.all.map out) [] :=
    fun _ h => absurd h List.not_mem_nil
  have hlow : ∀ i, dontCare.mask.testBit i = true → DecodeLogic.LowAt (CSR.all.map out) i :=
    fun _ _ _ _ _ => .inl (keyWidth_outs.le.trans (by decide))
  obtain ⟨outs, cache, happly, hmatched, -⟩ :=
    DecodeLogic.apply_eq ord hcache nonOverlapping_outs hlow (by simp [CSR.all])
  rw [outputs, happly]
  refine ⟨hmatched, fun e _ _ i hi hfix => ?_⟩
  -- No bit of the default is fixed.
  have hmask : dontCare.mask.testBit i = true := by
    rw [show dontCare.mask = 2 ^ 42 - 1 from rfl, Nat.testBit_two_pow_sub_one]
    exact decide_eq_true hi
  exact absurd (hmask.symm.trans hfix) (by simp)

/-- `decoded_addr`. -/
def generated (ord : SetOrder) : AddrDecoder where
  sel a c := (((outputs ord)[c.index]?).map (· a)).getD false
  sel_addr c c' := by
    have hmem : out c ∈ CSR.all.map out := List.mem_map_of_mem c.mem_all
    have hbit := (implements_outputs ord).matched c.addr
      (keyWidth_outs.symm ▸ c.addr.isLt) (out c) hmem (matches_out.mpr rfl) c'.index c'.index_lt
      (Nat.zero_testBit _)
    rw [hbit, Option.getD_some, show (out c).2.value = 2 ^ c.index from rfl,
      Nat.testBit_two_pow]
    exact decide_eq_decide.mpr ⟨CSR.index_injective, fun h => h ▸ rfl⟩

end AddrDecoder

/-! ### Registers -/

/-- `Status`. -/
structure Status where
  ip : BitVec 8
  im : BitVec 8
  zero : BitVec 7
  er : Bool
  vm : Bool
  s64 : Bool
  u64 : Bool
  ef : Bool
  pei : Bool
  ei : Bool
  ps : Bool
  s : Bool
  deriving DecidableEq

namespace Status

def toBits (x : Status) : BitVec 32 :=
  x.ip ++ x.im ++ x.zero ++ BitVec.ofBool x.er ++ BitVec.ofBool x.vm ++ BitVec.ofBool x.s64 ++
    BitVec.ofBool x.u64 ++ BitVec.ofBool x.ef ++ BitVec.ofBool x.pei ++ BitVec.ofBool x.ei ++
    BitVec.ofBool x.ps ++ BitVec.ofBool x.s

def fromBits (n : BitVec 64) : Status where
  ip := n.extractLsb' 24 8
  im := n.extractLsb' 16 8
  zero := n.extractLsb' 9 7
  er := n.getLsbD 8
  vm := n.getLsbD 7
  s64 := n.getLsbD 6
  u64 := n.getLsbD 5
  ef := n.getLsbD 4
  pei := n.getLsbD 3
  ei := n.getLsbD 2
  ps := n.getLsbD 1
  s := n.getLsbD 0

/-- What reset makes of it. -/
def reset : Status := ⟨0, 0, 0, false, false, true, true, false, false, false, false, true⟩

end Status

/-- The parts of the configuration that `CSRFile` reads. -/
structure CSRConf where
  paddrBits : ℕ
  vaddrBits : ℕ
  pgIdxBits : ℕ
  retireBits : ℕ
  hartBits : ℕ
  vm : Bool
  rocc : Bool
  fpu : Bool

/-- `PCRReq`. -/
structure PCRReq where
  rw : Bool
  addr : BitVec 5
  data : BitVec 64
  deriving DecidableEq

/-- The address on the port. -/
def PCRReq.portAddr (r : PCRReq) : BitVec 12 := r.addr.setWidth 12 ||| 0x500

/-- The commands of the processor: `CSR.N` for none. -/
inductive CSRCmd
  | none
  | write
  | set
  | clear
  deriving DecidableEq

structure CSRFile (c : CSRConf) where
  epc : BitVec (c.vaddrBits + 1)
  badvaddr : BitVec c.vaddrBits
  evec : BitVec c.vaddrBits
  compare : BitVec 32
  cause : BitVec 64
  tohost : BitVec 64
  fromhost : BitVec 64
  sup0 : BitVec 64
  sup1 : BitVec 64
  ptbr : BitVec c.paddrBits
  stats : Bool
  status : Status
  /-- The three counters are `WideCounter`s: the two halves of one are put together here. -/
  time : BitVec 64
  instret : BitVec 64
  uarchCounters : Fin 16 → BitVec 64
  fflags : BitVec 5
  frm : BitVec 3
  irqTimer : Bool
  irqIpi : Bool
  hostPcrReqValid : Bool
  hostPcrRepValid : Bool
  hostPcrBits : PCRReq

structure CSRIn (c : CSRConf) where
  hostId : BitVec c.hartBits
  pcrReq : Option PCRReq
  pcrRepReady : Bool
  ipiReqReady : Bool
  ipiRepValid : Bool
  rwAddr : BitVec 12
  rwCmd : CSRCmd
  rwWdata : BitVec 64
  exception : Bool
  retire : BitVec c.retireBits
  uarchCounters : Fin 16 → BitVec c.retireBits
  cause : BitVec 64
  badvaddrWen : Bool
  pc : BitVec (c.vaddrBits + 1)
  sret : Bool
  /-- `fcsr_flags`. -/
  fcsrFlags : Option (BitVec 5)
  roccInterrupt : Bool

namespace CSRFile

variable {c : CSRConf} (d : AddrDecoder) (s : CSRFile c) (i : CSRIn c)

/-- The registers that have a reset value have it. The handshake with the host goes on over a
reset. -/
structure IsReset : Prop where
  tohost : s.tohost = 0
  fromhost : s.fromhost = 0
  stats : s.stats = false
  status : s.status = .reset
  time : s.time = 0
  instret : s.instret = 0
  uarchCounters : ∀ k, s.uarchCounters k = 0
  irqTimer : s.irqTimer = false
  irqIpi : s.irqIpi = true

/-! ### The port -/

def cpuReqValid : Bool := decide (i.rwCmd ≠ .none)

def pcrReqReady : Bool := !s.hostPcrReqValid && !s.hostPcrRepValid

/-- `io.host.pcr_req.fire()`. -/
def pcrReqFire : Option PCRReq := if s.pcrReqReady then i.pcrReq else none

/-- `io.host.pcr_rep.fire()`. -/
def pcrRepFire : Bool := s.hostPcrRepValid && i.pcrRepReady

def hostPcrReqFire : Bool := s.hostPcrReqValid && !cpuReqValid i

def addr : BitVec 12 := if cpuReqValid i then i.rwAddr else s.hostPcrBits.portAddr

/-- `decoded_addr`. -/
def selects (r : CSR) : Bool := d.sel (s.addr i) r

def wen : Bool := cpuReqValid i || s.hostPcrReqFire i && s.hostPcrBits.rw

def wdata : BitVec 64 := if cpuReqValid i then i.rwWdata else s.hostPcrBits.data

/-- `io.status`. -/
def statusOut : Status :=
  { s.status with
    ip := BitVec.ofBool s.irqTimer ++ BitVec.ofBool (s.fromhost != 0) ++ BitVec.ofBool s.irqIpi ++
      (0 : BitVec 2) ++ BitVec.ofBool (c.rocc && i.roccInterrupt) ++ (0 : BitVec 2) }

/-- `read_impl`. -/
def readImpl : BitVec 64 := 2

/-- The value that the port reads from a register. `reset` is decoded, but no value is read. -/
def value : CSR → BitVec 64
  | .fflags => if c.fpu then s.fflags.setWidth 64 else 0
  | .frm => if c.fpu then s.frm.setWidth 64 else 0
  | .fcsr => if c.fpu then (s.frm ++ s.fflags).setWidth 64 else 0
  | .stats => (BitVec.ofBool s.stats).setWidth 64
  | .sup0 => s.sup0
  | .sup1 => s.sup1
  | .epc => s.epc.setWidth 64
  | .badvaddr => s.badvaddr.setWidth 64
  | .ptbr => ((s.ptbr >>> c.pgIdxBits) <<< c.pgIdxBits).setWidth 64
  | .asid => 0
  | .count => s.time
  | .compare => s.compare.setWidth 64
  | .evec => s.evec.setWidth 64
  | .cause => s.cause
  | .status => (s.statusOut i).toBits.setWidth 64
  | .hartid => i.hostId.setWidth 64
  | .impl => readImpl
  | .fatc => readImpl
  | .sendIpi => readImpl
  | .clearIpi => readImpl
  | .reset => 0
  | .tohost => s.tohost
  | .fromhost => s.fromhost
  | .cycle => s.time
  | .time => s.time
  | .instret => s.instret
  | .uarch k => s.uarchCounters k

/-- `io.rw.rdata`: what the selected registers have, or-ed together. -/
def rdata : BitVec 64 :=
  CSR.all.foldr (fun r x => (if s.selects d i r then s.value i r else 0#64) ||| x) 0#64

/-! ### Outputs -/

def ipiReqValid : Bool := cpuReqValid i && s.selects d i .sendIpi

def replay : Bool := s.ipiReqValid d i && !i.ipiReqReady

def fatcOut : Bool := s.wen i && s.selects d i .fatc

def evecOut : BitVec (c.vaddrBits + 1) :=
  if i.exception then s.evec.signExtend (c.vaddrBits + 1) else s.epc

/-! ### Registers after a cycle -/

/-- The register is written. -/
def writes (r : CSR) : Bool := s.wen i && s.selects d i r

/-- `reg_status` as written by the port. -/
def writtenStatus : Status :=
  let x := Status.fromBits (s.wdata i)
  { x with
    s64 := true
    u64 := true
    zero := 0
    vm := c.vm && x.vm
    er := c.rocc && x.er
    ef := c.fpu && x.ef }

def trappedStatus : Status :=
  if i.exception then { s.status with s := true, ps := s.status.s, ei := false, pei := s.status.ei }
  else s.status

def returnedStatus : Status :=
  if i.sret then { s.trappedStatus i with s := s.status.ps, ei := s.status.pei }
  else s.trappedStatus i

def nextStatus : Status :=
  if s.writes d i .status then s.writtenStatus i else s.returnedStatus i

/-- A host read of `tohost` empties it. A write is heeded only if it is empty, unless the host
writes. -/
def nextTohost : BitVec 64 :=
  if s.writes d i .tohost && (decide (s.tohost = 0) || s.hostPcrReqFire i) then s.wdata i
  else if s.hostPcrReqFire i && !s.hostPcrBits.rw && s.selects d i .tohost then 0
  else s.tohost

/-- A write of the host is heeded only if the register is empty. -/
def nextFromhost : BitVec 64 :=
  if s.writes d i .fromhost && (decide (s.fromhost = 0) || !s.hostPcrReqFire i) then s.wdata i
  else s.fromhost

def nextFflags : BitVec 5 :=
  if s.writes d i .fcsr || s.writes d i .fflags then (s.wdata i).setWidth 5
  else s.fflags ||| i.fcsrFlags.getD 0

def nextFrm : BitVec 3 :=
  if s.writes d i .fcsr then (s.wdata i >>> 5).setWidth 3
  else if s.writes d i .frm then (s.wdata i).setWidth 3
  else s.frm

def nextIrqTimer : Bool :=
  if s.writes d i .compare then false
  else s.irqTimer || decide (s.time.setWidth 32 = s.compare)

def nextIrqIpi : Bool :=
  i.ipiRepValid || if s.writes d i .clearIpi then (s.wdata i).getLsbD 0 else s.irqIpi

/-- `host_pcr_bits`. -/
def nextHostPcrBits : PCRReq :=
  if s.hostPcrReqFire i then { s.hostPcrBits with data := s.rdata d i }
  else (s.pcrReqFire i).getD s.hostPcrBits

/-- One cycle. -/
def next : CSRFile c where
  epc := if s.writes d i .epc then (s.wdata i).setWidth _ else if i.exception then i.pc else s.epc
  -- the sign bit that is put on top of the address does not fit the register
  badvaddr := if i.badvaddrWen then i.rwWdata.setWidth _ else s.badvaddr
  evec := if s.writes d i .evec then (s.wdata i).setWidth _ else s.evec
  compare := if s.writes d i .compare then (s.wdata i).setWidth 32 else s.compare
  cause := if i.exception then i.cause else s.cause
  tohost := s.nextTohost d i
  fromhost := s.nextFromhost d i
  sup0 := if s.writes d i .sup0 then s.wdata i else s.sup0
  sup1 := if s.writes d i .sup1 then s.wdata i else s.sup1
  ptbr :=
    if s.writes d i .ptbr then (((s.wdata i).setWidth _) >>> c.pgIdxBits) <<< c.pgIdxBits
    else s.ptbr
  stats := if s.writes d i .stats then (s.wdata i).getLsbD 0 else s.stats
  status := s.nextStatus d i
  time := if s.writes d i .count then s.wdata i else s.time + 1
  instret := s.instret + i.retire.setWidth 64
  uarchCounters k := s.uarchCounters k + (i.uarchCounters k).setWidth 64
  fflags := s.nextFflags d i
  frm := s.nextFrm d i
  irqTimer := s.nextIrqTimer d i
  irqIpi := s.nextIrqIpi d i
  hostPcrReqValid := (s.pcrReqFire i).isSome || s.hostPcrReqValid && !s.hostPcrReqFire i
  hostPcrRepValid := !s.pcrRepFire i && (s.hostPcrRepValid || s.hostPcrReqFire i)
  hostPcrBits := s.nextHostPcrBits d i

end CSRFile

end RiscvSoc
