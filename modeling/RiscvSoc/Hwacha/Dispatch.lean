import RiscvSoc.Hwacha.DispatchTable
import RiscvSoc.Lib.Bits
import RiscvSoc.Lib.Encoder
import RiscvSoc.Lib.Machine
import RiscvSoc.Lib.Queue

/-!
# Dispatch of vector commands

`Hwacha` takes an instruction when every queue that the instruction puts something into is ready,
and to each of these queues it shows an entry when all the others are ready. The queue itself is
left out of its own `valid`: it is asked by its `ready`.

In user mode, however, three of the queues are not asked by their `ready` but by a counter of their
free places: an instruction is taken only if there are at least 11 (or 9). Below that mark the queue
is still ready. So an instruction for which everything else is ready leaves an entry in the queue in
every cycle in which it waits for the mark.
-/

namespace RiscvSoc

namespace Hwacha

/-! ### State -/

open Bits

structure HwachaConfiguration where
  nbanks : ℕ
  nregPerBank : ℕ
  confprec : Bool

namespace HwachaConfiguration

variable (c : HwachaConfiguration)

def nregTotal : ℕ := c.nbanks * c.nregPerBank

/-- The width of a vector length. -/
def vlBits : ℕ := log2Up c.nregTotal + 1

end HwachaConfiguration

/-- `conf.vcmdq.ncmd`. -/
def ncmd : ℕ := 19

def nimm1 : ℕ := 19

def nimm2 : ℕ := 17

def ncnt : ℕ := 8

instance instNeZeroNcmd : NeZero ncmd := ⟨Nat.succ_ne_zero 18⟩

instance instNeZeroNimm1 : NeZero nimm1 := ⟨Nat.succ_ne_zero 18⟩

instance instNeZeroNimm2 : NeZero nimm2 := ⟨Nat.succ_ne_zero 16⟩

instance instNeZeroNcnt : NeZero ncnt := ⟨Nat.succ_ne_zero 7⟩

structure HwachaCommand where
  cmcode : BitVec 8
  vd : BitVec 5
  vt : BitVec 5
  deriving DecidableEq

structure HwachaCnt where
  cnt : BitVec 12
  last : Bool
  deriving DecidableEq

/-- `VCMDQ`; the counts are of type `κ`. -/
structure VCMDQ (κ : Type) where
  cmd : Queue HwachaCommand ncmd
  imm1 : Queue (BitVec 64) nimm1
  imm2 : Queue (BitVec 64) nimm2
  cnt : Queue κ ncnt

structure RoCCResponse where
  rd : BitVec 5
  data : BitVec 64
  deriving DecidableEq

/-- The configuration registers. -/
structure VConfig (w : ℕ) where
  maxvl : BitVec w
  vl : BitVec w
  regs : BitVec 12
  prec : BitVec 2
  deriving DecidableEq

/-- The registers of `Hwacha`, and the command queues of `VU` with the counters of their free
places. -/
structure Dispatch (c : HwachaConfiguration) where
  config : VConfig c.vlBits
  stallHold : Bool
  regHold : Bool
  respq : Queue RoCCResponse 2
  vcmdq : VCMDQ HwachaCnt
  /-- Nothing drives the `last` of its counts. -/
  vpfcmdq : VCMDQ (BitVec 12)
  cmdCount : BitVec 5
  imm1Count : BitVec 5
  imm2Count : BitVec 5

/-- `RoCCCommand`. -/
structure RoCCCommand where
  inst : BitVec 32
  rs1 : BitVec 64
  rs2 : BitVec 64
  deriving DecidableEq

/-- The other side of a `VCMDQ`. -/
structure VCMDQReady where
  cmd : Bool
  imm1 : Bool
  imm2 : Bool
  cnt : Bool

structure DispatchIn where
  cmd : Option RoCCCommand
  /-- Supervisor mode. -/
  s : Bool
  respReady : Bool
  /-- `xcpt.io.vu.prop.top.stall`. -/
  topStall : Bool
  /-- `xcpt.io.vu.prop.vu.busy`. -/
  busy : Bool
  flushTop : Bool
  flushKill : Bool
  /-- `vxu.io.pending_vf || vxu.io.pending_seq`. -/
  pending : Bool
  /-- The vector unit or the evacuation takes an entry. -/
  vcmdqReady : VCMDQReady
  /-- The runahead unit does. -/
  vpfcmdqReady : VCMDQReady
  irqCause : BitVec 5
  irqAux : BitVec 64

/-- What an instruction can put an entry into. -/
inductive DispatchQueue
  | resp
  | cmd
  | imm1
  | imm2
  | cnt
  | pfCmd
  | pfImm1
  | pfImm2
  | pfCnt
  deriving DecidableEq

def DispatchQueue.all : List DispatchQueue :=
  [resp, cmd, imm1, imm2, cnt, pfCmd, pfImm1, pfImm2, pfCnt]

theorem DispatchQueue.mem_all (q : DispatchQueue) : q ∈ all := by cases q <;> decide

/-- The register of a `QCounter`. -/
def qcounter {sz : ℕ} (count : BitVec sz) (inc dec : Bool) : BitVec sz :=
  if inc == dec then count else if inc then count + 1 else count - 1

namespace Dispatch

variable {c : HwachaConfiguration} (x : BitVec 32 → DontCares) (s : Dispatch c) (i : DispatchIn)

/-! ### The instruction -/

/-- The bits on the command port. -/
def bits : RoCCCommand := i.cmd.getD ⟨0, 0, 0⟩

def inst : BitVec 32 := (bits i).inst

def rs1 : BitVec 64 := (bits i).rs1

def rs2 : BitVec 64 := (bits i).rs2

def ctrl : HwachaCtrl := .decode x (inst i)

def instIImm : BitVec 12 := (inst i).extractLsb' 20 12

/-- A prefetch queue gets an entry, unless the instruction asks and the operand says no. -/
def masked (emit : Bool) : Bool := emit && (!(ctrl x i).checkPfq || (rs2 i).getLsbD 0)

/-- The queue gets an entry. -/
def emits : DispatchQueue → Bool
  | .resp => (ctrl x i).emitResponse
  | .cmd => (ctrl x i).emit.cmd
  | .imm1 => (ctrl x i).emit.imm1
  | .imm2 => (ctrl x i).emit.imm2
  | .cnt => (ctrl x i).emit.cnt
  | .pfCmd => masked x i (ctrl x i).pf.cmd
  | .pfImm1 => masked x i (ctrl x i).pf.imm1
  | .pfImm2 => masked x i (ctrl x i).pf.imm2
  | .pfCnt => masked x i (ctrl x i).pf.cnt

def decodeVcfg : Bool := (ctrl x i).vcmdValid && decide ((ctrl x i).selVcmd = cmdVsetcfg)

/-! ### The vector length -/

section Length

variable (c)

def nextPrec : BitVec 2 :=
  if c.confprec then
    if (rs1 i).extractLsb' 12 2 = 1 then 1 else if (rs1 i).extractLsb' 12 2 = 2 then 2 else 0
  else 0

def nxpr : BitVec 7 := ((rs1 i).extractLsb' 0 6 + (instIImm i).extractLsb' 0 6).setWidth 7

def nfpr : BitVec 7 := ((rs1 i).extractLsb' 6 6 + (instIImm i).extractLsb' 6 6).setWidth 7

/-- `packing`. -/
def packing : ℕ :=
  if nextPrec c i = 1 then 1 else if nextPrec c i = 2 then 2 else 0

def regsUsed : ℕ := (nxpr i).toNat.pred <<< packing c i + (nfpr i).toNat

/-- `rom_allocation_units`. -/
def allocationUnits (n : ℕ) : ℕ := if n < 2 then c.nregPerBank else c.nregPerBank / n

def utPerBank : ℕ :=
  allocationUnits c (min (regsUsed c i) 164) <<< packing c i

def newMaxvl : ℕ := utPerBank c i <<< 3

/-- `xf_split(7,0)`. -/
def xfSplit : BitVec 8 :=
  BitVec.ofNat 8 ((newMaxvl c i >>> 3) * (nxpr i - 1).toNat)

end Length

def newVl : BitVec 64 :=
  if (rs1 i).toNat < s.config.maxvl.toNat then rs1 i else s.config.maxvl.setWidth 64

def vimmVlenBits : BitVec 64 :=
  (0 : BitVec 18) ++ nextPrec c i ++ xfSplit c i ++ (8 : BitVec 4) ++
    (255 : BitVec 8) ++ (nfpr i).setWidth 6 ++ (nxpr i).setWidth 6 ++ (s.newVl i).setWidth 12

/-! ### Exceptions -/

def cfgXregs : BitVec 6 := s.config.regs.extractLsb' 0 6

def cfgFregs : BitVec 6 := s.config.regs.extractLsb' 6 6

/-- `vr1` and `vr2`. -/
def vr (rd : Bool) : BitVec 5 :=
  if rd then (inst i).extractLsb' 7 5 else (inst i).extractLsb' 15 5

def vr1 : BitVec 5 := vr i (ctrl x i).vr.reg1

def vr2 : BitVec 5 := vr i (ctrl x i).vr.reg2

def illegalCfg : Bool :=
  i.cmd.isSome && decodeVcfg x i && (decide (32 < (nxpr i).toNat) || decide (32 < (nfpr i).toNat))

def illegalInst : Bool := i.cmd.isSome && !(ctrl x i).instVal

def privInst : Bool := i.cmd.isSome && (ctrl x i).priv && !i.s

def illegalRegid : Bool :=
  let limit := if (ctrl x i).vr.rtype then s.cfgFregs else s.cfgXregs
  i.cmd.isSome && (ctrl x i).vrValid &&
    (decide (limit.toNat ≤ (vr1 x i).toNat) || decide (limit.toNat ≤ (vr2 x i).toNat))

def irqTop : Bool := illegalCfg x i || illegalInst x i || privInst x i || s.illegalRegid x i

def stall : Bool := s.stallHold || s.irqTop x i || i.topStall

/-! ### Readiness -/

/-- `vu.io.keepcfg`. -/
def keepcfg : Bool := !s.vcmdq.cmd.ptrs.empty || i.pending

def maskVcfg : Bool := !decodeVcfg x i || !s.keepcfg i

/-- The instruction depends on the vector length, and that is zero. -/
def noVl : Bool := (ctrl x i).checkVl && decide (s.config.vl = 0)

def cmdValid : Bool := (ctrl x i).instVal && i.cmd.isSome && !s.noVl x i && s.maskVcfg x i

/-- The queue takes an entry; those of the vector unit do not while there is an exception. -/
def room : DispatchQueue → Bool
  | .resp => !s.respq.ptrs.full
  | .cmd => !s.vcmdq.cmd.ptrs.full && !i.busy
  | .imm1 => !s.vcmdq.imm1.ptrs.full && !i.busy
  | .imm2 => !s.vcmdq.imm2.ptrs.full && !i.busy
  | .cnt => !s.vcmdq.cnt.ptrs.full && !i.busy
  | .pfCmd => !s.vpfcmdq.cmd.ptrs.full && !i.busy
  | .pfImm1 => !s.vpfcmdq.imm1.ptrs.full && !i.busy
  | .pfImm2 => !s.vpfcmdq.imm2.ptrs.full && !i.busy
  | .pfCnt => !s.vpfcmdq.cnt.ptrs.full && !i.busy

/-- `vcmdq_user_ready` and its like: the watermark of a counter. -/
def userReady (count : BitVec 5) (qcnt : ℕ) : Bool := decide (qcnt ≤ count.toNat) && !i.busy

/-- What the instruction asks instead of the queue. -/
def grants : DispatchQueue → Bool
  | .cmd => if i.s then s.room i .cmd else userReady i s.cmdCount 11
  | .imm1 => if i.s then s.room i .imm1 else userReady i s.imm1Count 11
  | .imm2 => if i.s then s.room i .imm2 else userReady i s.imm2Count 9
  | q => s.room i q

/-- `vcmd_ready` and its like. -/
def ready (q : DispatchQueue) : Bool := !emits x i q || s.grants i q

/-- Everything is ready but what is excluded. -/
def constructReady (exclude : Option DispatchQueue) : Bool :=
  !s.stall x i &&
    (DispatchQueue.all.filter fun q => decide (some q ≠ exclude)).all (s.ready x i)

/-- `io.cmd.ready`. -/
def cmdReady : Bool := s.maskVcfg x i && s.constructReady x i none

/-- The `valid` of an entry. -/
def valid (q : DispatchQueue) : Bool :=
  s.cmdValid x i && emits x i q && s.constructReady x i (some q)

/-! ### Entries -/

def vcmd : HwachaCommand :=
  if (ctrl x i).vcmdValid then ⟨(ctrl x i).selVcmd, vr1 x i, vr2 x i⟩
  else ⟨(rs1 i).extractLsb' 10 8, (rs1 i).extractLsb' 5 5, (rs1 i).extractLsb' 0 5⟩

def vimmAddrBits : BitVec 64 :=
  rs1 i + ((inst i).extractLsb' 25 7 ++ (inst i).extractLsb' 7 5 : BitVec 12).signExtend 64

/-- The value of an immediate. -/
def vimm (sel : BitVec 3) : BitVec 64 :=
  if sel = vimmRs1 then rs1 i
  else if sel = vimmRs2 then rs2 i
  else if sel = vimmAddr then vimmAddrBits i
  else s.vimmVlenBits i

def vimm1 : BitVec 64 := s.vimm i (ctrl x i).selVimm1

def vimm2 : BitVec 64 := s.vimm i (ctrl x i).selVimm2

def vcnt : HwachaCnt := ⟨(rs1 i).setWidth 12, (rs2 i).getLsbD 1⟩

def respData : BitVec 64 :=
  if (ctrl x i).selResp = respCause then i.irqCause.setWidth 64
  else if (ctrl x i).selResp = respAux then i.irqAux
  else if (ctrl x i).selResp = respCfg then s.config.regs.setWidth 64
  else if (ctrl x i).selResp = respVl then s.config.vl.setWidth 64
  else s.newVl i

def resp : RoCCResponse := ⟨(inst i).extractLsb' 7 5, s.respData x i⟩

/-- A queue behind `MaskStall`, or reset. -/
def nextQueue {α : Type} {n : ℕ} [NeZero n] (q : Queue α n) (enq : Option α) (deqReady : Bool) :
    Queue α n :=
  if i.flushKill then ⟨⟨0, 0, false⟩, q.ram⟩
  else q.next false false ⟨if i.busy then none else enq, deqReady⟩

/-- The entry that is shown to a queue. -/
def entry {α : Type} (q : DispatchQueue) (e : α) : Option α :=
  if s.valid x i q then some e else none

/-! ### One cycle -/

/-- What the instruction makes of the configuration. -/
def configured : VConfig c.vlBits :=
  if (ctrl x i).vcmdValid then
    if (ctrl x i).selVcmd = cmdVsetcfg then
      { maxvl := BitVec.ofNat _ (newMaxvl c i)
        vl := 0
        regs := (nfpr i).setWidth 6 ++ (nxpr i).setWidth 6
        prec := nextPrec c i }
    else if (ctrl x i).selVcmd = cmdVsetvl then { s.config with vl := (s.newVl i).setWidth _ }
    else s.config
  else s.config

def nextVcmdq : VCMDQ HwachaCnt where
  cmd := nextQueue i s.vcmdq.cmd (s.entry x i .cmd (vcmd x i)) i.vcmdqReady.cmd
  imm1 := nextQueue i s.vcmdq.imm1 (s.entry x i .imm1 (s.vimm1 x i)) i.vcmdqReady.imm1
  imm2 := nextQueue i s.vcmdq.imm2 (s.entry x i .imm2 (s.vimm2 x i)) i.vcmdqReady.imm2
  cnt := nextQueue i s.vcmdq.cnt (s.entry x i .cnt (vcnt i)) i.vcmdqReady.cnt

def nextVpfcmdq : VCMDQ (BitVec 12) where
  cmd := nextQueue i s.vpfcmdq.cmd (s.entry x i .pfCmd (vcmd x i)) i.vpfcmdqReady.cmd
  imm1 := nextQueue i s.vpfcmdq.imm1 (s.entry x i .pfImm1 (s.vimm1 x i)) i.vpfcmdqReady.imm1
  imm2 := nextQueue i s.vpfcmdq.imm2 (s.entry x i .pfImm2 (s.vimm2 x i)) i.vpfcmdqReady.imm2
  cnt := nextQueue i s.vpfcmdq.cnt (s.entry x i .pfCnt (vcnt i).cnt) i.vpfcmdqReady.cnt

/-- A counter goes down when the queue is ready and an entry is shown, also behind `MaskStall`. -/
def nextCount {α : Type} {n : ℕ} (q : Queue α n) (count : BitVec 5) (full : BitVec 5)
    (shown deqReady : Bool) : BitVec 5 :=
  if i.flushKill then full
  else qcounter count (deqReady && !q.ptrs.empty) (!q.ptrs.full && shown)

/-- One cycle. -/
def next : Dispatch c where
  config :=
    if s.cmdValid x i && (ctrl x i).vcmdValid && s.constructReady x i none then s.configured x i
    else s.config
  stallHold := !i.flushTop && (s.stallHold || s.irqTop x i)
  regHold :=
    !(s.regHold && !i.s) &&
      (s.regHold || s.cmdValid x i && (ctrl x i).declHold && s.constructReady x i none)
  respq := s.respq.next false false ⟨s.entry x i .resp (s.resp x i), i.respReady⟩
  vcmdq := s.nextVcmdq x i
  vpfcmdq := s.nextVpfcmdq x i
  cmdCount := nextCount i s.vcmdq.cmd s.cmdCount 19 (s.valid x i .cmd) i.vcmdqReady.cmd
  imm1Count := nextCount i s.vcmdq.imm1 s.imm1Count 19 (s.valid x i .imm1) i.vcmdqReady.imm1
  imm2Count := nextCount i s.vcmdq.imm2 s.imm2Count 17 (s.valid x i .imm2) i.vcmdqReady.imm2

/-! ### All or nothing -/

/-- `io.cmd.fire()`. -/
def accepted : Bool := i.cmd.isSome && s.cmdReady x i

/-- The queue takes the entry. -/
def took (q : DispatchQueue) : Bool := s.valid x i q && s.room i q

/-- The decoder designates the queue: the instruction emits an entry, and does not depend on a
vector length of zero. -/
def designates (q : DispatchQueue) : Bool := emits x i q && !s.noVl x i

/-- The instruction is taken, each queue that it designates takes its entry, and the configuration
is what the instruction makes of it; or nothing happens. -/
def AllOrNothing : Prop :=
  s.accepted x i = true ∧ (∀ q, s.took x i q = s.designates x i q) ∧
      (s.next x i).config = s.configured x i ∨
    s.accepted x i = false ∧ (∀ q, s.took x i q = false) ∧ (s.next x i).config = s.config

/-- Where a queue decides, because all the others are ready, the instruction is told what the queue
says. -/
def Consistent : Prop :=
  ∀ q, s.cmdValid x i = true → s.stall x i = false → (∀ q', q' ≠ q → s.ready x i q' = true) →
    emits x i q = true → s.grants i q = s.room i q

variable {x s i}

theorem constructReady_iff {exclude : Option DispatchQueue} : s.constructReady x i exclude = true ↔
    s.stall x i = false ∧ ∀ q, some q ≠ exclude → s.ready x i q = true := by
  rw [constructReady, Bool.and_eq_true, Bool.not_eq_true', List.all_eq_true]
  refine and_congr_right fun _ => ⟨fun h q hq => ?_, fun h q hq => ?_⟩
  · exact h q (List.mem_filter.mpr ⟨q.mem_all, decide_eq_true hq⟩)
  · exact h q (of_decide_eq_true (List.mem_filter.mp hq).2)

variable {q : DispatchQueue}

theorem constructReady_some_iff : s.constructReady x i (some q) = true ↔
    s.stall x i = false ∧ ∀ q', q' ≠ q → s.ready x i q' = true := by
  rw [constructReady_iff]
  exact and_congr_right fun _ =>
    forall_congr' fun q' => imp_congr_left (not_congr ⟨Option.some.inj, congrArg some⟩)

theorem constructReady_none_iff : s.constructReady x i none = true ↔
    s.stall x i = false ∧ ∀ q, s.ready x i q = true := by
  rw [constructReady_iff]
  exact and_congr_right fun _ => forall_congr' fun q => imp_iff_right (Option.some_ne_none q)

theorem cmdValid_iff : s.cmdValid x i = true ↔ (ctrl x i).instVal = true ∧ i.cmd.isSome = true ∧
    s.noVl x i = false ∧ s.maskVcfg x i = true := by
  rw [cmdValid, Bool.and_eq_true, Bool.and_eq_true, Bool.and_eq_true, Bool.not_eq_true', and_assoc,
    and_assoc]

theorem ready_of_emits (h : emits x i q = true) :
    s.ready x i q = s.grants i q := by
  rw [ready, h]
  rfl

theorem took_iff : s.took x i q = true ↔ s.cmdValid x i = true ∧
    emits x i q = true ∧ s.constructReady x i (some q) = true ∧ s.room i q = true := by
  rw [took, valid, Bool.and_eq_true, Bool.and_eq_true, Bool.and_eq_true, and_assoc, and_assoc]

/-- An instruction that is known and taken, but does nothing, depends on the vector length. -/
theorem noVl_of_accepted (h : s.accepted x i = true) (hcmd : s.cmdValid x i = false) :
    s.noVl x i = true := by
  obtain ⟨hsome, hready⟩ := Bool.and_eq_true_iff.mp h
  obtain ⟨hmask, hall⟩ := Bool.and_eq_true_iff.mp hready
  have hstall := (constructReady_none_iff.mp hall).1
  by_contra hno
  have hval : (ctrl x i).instVal = true := by
    by_contra hill
    have hirq : illegalInst x i = true := by
      rw [illegalInst, hsome, Bool.eq_false_of_not_eq_true hill]
      rfl
    rw [stall, irqTop, hirq] at hstall
    simp at hstall
  exact Bool.noConfusion
    (hcmd.symm.trans (cmdValid_iff.mpr ⟨hval, hsome, Bool.eq_false_of_not_eq_true hno, hmask⟩))

theorem configured_of_noVl (h : s.noVl x i = true) : s.configured x i = s.config := by
  have hcheck : (ctrl x i).checkVl = true := (Bool.and_eq_true_iff.mp h).1
  rw [configured]
  cases hvcmd : (ctrl x i).vcmdValid with
  | false => rfl
  | true =>
    obtain ⟨hcfg, hvl⟩ := HwachaCtrl.not_setting_of_checkVl hcheck hvcmd
    exact (if_pos rfl).trans ((if_neg hcfg).trans (if_neg hvl))

theorem config_of_not (h : (s.cmdValid x i && s.constructReady x i none) = false) :
    (s.next x i).config = s.config := by
  refine if_neg fun hset => ?_
  rw [Bool.and_eq_true, Bool.and_eq_true] at hset
  rw [hset.1.1, hset.2] at h
  cases h

/-- An instruction with nothing to do leaves no trace, taken or not. -/
theorem allOrNothing_of_not_valid (hcmd : s.cmdValid x i = false) : s.AllOrNothing x i := by
  have htook : ∀ q, s.took x i q = false := by
    intro q
    rw [took, valid, hcmd, Bool.false_and, Bool.false_and, Bool.false_and]
  have hconfig : (s.next x i).config = s.config := config_of_not (by rw [hcmd, Bool.false_and])
  cases hacc : s.accepted x i with
  | false => exact .inr ⟨hacc, htook, hconfig⟩
  | true =>
    have hno := noVl_of_accepted hacc hcmd
    refine .inl ⟨hacc, fun q => ?_, hconfig.trans (configured_of_noVl hno).symm⟩
    rw [htook, designates, hno, Bool.not_true, Bool.and_false]

/-- Everything is ready: the instruction is taken, and each queue that has room takes its entry. -/
theorem allOrNothing_iff_of_ready (hcmd : s.cmdValid x i = true)
    (hall : s.constructReady x i none = true) :
    s.AllOrNothing x i ↔ ∀ q, emits x i q = true → s.room i q = true := by
  obtain ⟨-, hsome, hno, hmask⟩ := cmdValid_iff.mp hcmd
  obtain ⟨hstall, hready⟩ := constructReady_none_iff.mp hall
  have hacc : s.accepted x i = true := by
    rw [accepted, cmdReady, hsome, hmask, hall]
    rfl
  have hconfig : (s.next x i).config = s.configured x i := by
    show (if _ then _ else _) = _
    rw [hcmd, hall, Bool.true_and, Bool.and_true, configured]
    cases (ctrl x i).vcmdValid <;> rfl
  have hexcl : ∀ q, s.constructReady x i (some q) = true := fun q =>
    constructReady_some_iff.mpr ⟨hstall, fun q' _ => hready q'⟩
  have htook : ∀ q, s.took x i q = (emits x i q && s.room i q) := by
    intro q
    rw [took, valid, hcmd, hexcl, Bool.true_and, Bool.and_true]
  have hdes : ∀ q, s.designates x i q = emits x i q := by
    intro q
    rw [designates, hno, Bool.not_false, Bool.and_true]
  constructor
  · rintro (⟨-, h, -⟩ | ⟨h, -, -⟩) q hq
    · have hq' := h q
      rwa [htook, hdes, hq, Bool.true_and] at hq'
    · exact Bool.noConfusion (h.symm.trans hacc)
  · intro h
    refine .inl ⟨hacc, fun q => ?_, hconfig⟩
    rw [htook, hdes]
    cases hq : emits x i q with
    | false => rfl
    | true => rw [h q hq, Bool.true_and]

/-- Something is not ready: the instruction waits, and no queue may take an entry. -/
theorem allOrNothing_iff_of_not_ready (hall : s.constructReady x i none = false) :
    s.AllOrNothing x i ↔ ∀ q, s.took x i q = false := by
  have hacc : s.accepted x i = false := by
    rw [accepted, cmdReady, hall, Bool.and_false, Bool.and_false]
  have hconfig : (s.next x i).config = s.config := config_of_not (by rw [hall, Bool.and_false])
  constructor
  · rintro (⟨h, -, -⟩ | ⟨-, h, -⟩)
    · exact Bool.noConfusion (hacc.symm.trans h)
    · exact h
  · exact fun h => .inr ⟨hacc, h, hconfig⟩

/-- **A cycle is all or nothing** exactly if the queues and what the instruction is told of them are
consistent. -/
theorem allOrNothing_iff : s.AllOrNothing x i ↔ s.Consistent x i := by
  cases hcmd : s.cmdValid x i with
  | false =>
    refine iff_of_true (allOrNothing_of_not_valid hcmd) fun q h => ?_
    exact Bool.noConfusion (hcmd.symm.trans h)
  | true =>
    cases hall : s.constructReady x i none with
    | true =>
      obtain ⟨hstall, hready⟩ := constructReady_none_iff.mp hall
      rw [allOrNothing_iff_of_ready hcmd hall]
      have hgrants : ∀ q, emits x i q = true → s.grants i q = true := fun q hq =>
        (ready_of_emits hq).symm.trans (hready q)
      constructor
      · intro h q _ _ _ hq
        rw [hgrants q hq, h q hq]
      · intro h q hq
        rw [← h q hcmd hstall (fun q' _ => hready q') hq, hgrants q hq]
    | false =>
      rw [allOrNothing_iff_of_not_ready hall]
      have hrefuse : ∀ q, s.stall x i = false → (∀ q', q' ≠ q → s.ready x i q' = true) →
          emits x i q = true → s.grants i q = false := by
        intro q hstall hothers hq
        by_contra hgrant
        refine Bool.noConfusion
          (hall.symm.trans (constructReady_none_iff.mpr ⟨hstall, fun q' => ?_⟩))
        by_cases hqq : q' = q
        · rw [hqq, ready_of_emits hq, Bool.eq_true_of_not_eq_false hgrant]
        · exact hothers q' hqq
      constructor
      · intro h q _ hstall hothers hq
        have hroom : s.room i q = false := by
          by_contra hroom
          refine Bool.noConfusion ((h q).symm.trans (took_iff.mpr ⟨hcmd, hq, ?_, ?_⟩))
          · exact constructReady_some_iff.mpr ⟨hstall, hothers⟩
          · exact Bool.eq_true_of_not_eq_false hroom
        rw [hroom, hrefuse q hstall hothers hq]
      · intro h q
        by_contra htook
        obtain ⟨-, hq, hexcl, hroom⟩ := took_iff.mp (Bool.eq_true_of_not_eq_false htook)
        obtain ⟨hstall, hothers⟩ := constructReady_some_iff.mp hexcl
        have hgrant := h q hcmd hstall hothers hq
        rw [hrefuse q hstall hothers hq, hroom] at hgrant
        cases hgrant

theorem consistent_of_agree (h : ∀ q ∈ DispatchQueue.all, s.grants i q = s.room i q) :
    s.Consistent x i := fun q _ _ _ _ => h q q.mem_all

/-! ### Runs -/

/-- The cycles in which an instruction was taken, with the queues that it designates, and for each
queue the cycles in which it took an entry. -/
structure Log where
  now : ℕ
  accepted : List (ℕ × (DispatchQueue → Bool))
  entered : DispatchQueue → List ℕ

def Log.empty : Log := ⟨0, [], fun _ => []⟩

variable (x s i) in
def note (g : Log) : Log where
  now := g.now + 1
  accepted := g.accepted ++ if s.accepted x i then [(g.now, s.designates x i)] else []
  entered q := g.entered q ++ if s.took x i q then [g.now] else []

variable (s) in
structure IsReset : Prop where
  config : s.config = ⟨32, 0, (32 : BitVec 6) ++ (32 : BitVec 6), 0⟩
  stallHold : s.stallHold = false
  regHold : s.regHold = false
  respq : s.respq.IsReset
  vcmdq : s.vcmdq.cmd.IsReset ∧ s.vcmdq.imm1.IsReset ∧ s.vcmdq.imm2.IsReset ∧ s.vcmdq.cnt.IsReset
  vpfcmdq : s.vpfcmdq.cmd.IsReset ∧ s.vpfcmdq.imm1.IsReset ∧ s.vpfcmdq.imm2.IsReset ∧
    s.vpfcmdq.cnt.IsReset
  counts : s.cmdCount = 19 ∧ s.imm1Count = 19 ∧ s.imm2Count = 17

variable (c x) in
def machine : Machine (Dispatch c × Log) DispatchIn :=
  (Machine.clocked IsReset (next x)).observe .empty (note x)

/-- Every queue has one entry for each instruction that designates it. -/
def Log.Once (g : Log) : Prop :=
  ∀ q, g.entered q = (g.accepted.filter fun e => e.2 q).map (·.1)

/-- The step: an instruction and its entries arrive in the same cycle. -/
theorem once_note {g : Log} (h : g.Once) (hall : s.AllOrNothing x i) : (s.note x i g).Once := by
  intro q
  show g.entered q ++ _ = ((g.accepted ++ _).filter _).map _
  rw [List.filter_append, List.map_append, ← h q]
  refine congrArg (g.entered q ++ ·) ?_
  rcases hall with ⟨hacc, htook, -⟩ | ⟨hacc, htook, -⟩
  · rw [hacc, htook]
    cases hq : s.designates x i q with
    | false => simp [hq]
    | true => simp [hq]
  · rw [hacc, htook]
    rfl

theorem reachable_once : ∀ y,
    ((machine c x).restrict fun y i => y.1.Consistent x i).Reachable y → y.2.Once := by
  refine Machine.invariant ?_ ?_
  · rintro ⟨s, g⟩ ⟨-, rfl⟩ q
    rfl
  · rintro ⟨s, g⟩ i ⟨s', g'⟩ - h ⟨hok, -, hg⟩
    obtain rfl : g' = s.note x i g := hg
    exact once_note h (allOrNothing_iff.mpr hok)

end Dispatch

open Dispatch in
/-- **Dispatch.** For every state of the queues, the counters and the configuration, and every
instruction: the cycle is all or nothing exactly if it is consistent. And in every run of such
cycles, each queue has taken exactly one entry for each instruction that designates it, in the cycle
in which the instruction was taken. -/
theorem dispatch_once {c : HwachaConfiguration} (x : BitVec 32 → DontCares) :
    (∀ (s : Dispatch c) (i : DispatchIn), s.AllOrNothing x i ↔ s.Consistent x i) ∧
      ∀ y, ((machine c x).restrict fun y i => y.1.Consistent x i).Reachable y → y.2.Once :=
  ⟨fun _ _ => allOrNothing_iff, reachable_once⟩

/-! ### An instruction that waits for the mark -/

namespace Dispatch

/-- Eight banks of 256 registers. -/
def chip : HwachaConfiguration := ⟨8, 256, false⟩

def zeros : BitVec 32 → DontCares := fun _ => ⟨0, ⟨false, false, false⟩, 0, 0, 0⟩

def VCMDQ.reset {κ : Type} (e : κ) : VCMDQ κ where
  cmd := ⟨⟨0, 0, false⟩, fun _ => ⟨0, 0, 0⟩⟩
  imm1 := ⟨⟨0, 0, false⟩, fun _ => 0⟩
  imm2 := ⟨⟨0, 0, false⟩, fun _ => 0⟩
  cnt := ⟨⟨0, 0, false⟩, fun _ => e⟩

def start : Dispatch chip where
  config := ⟨32, 0, (32 : BitVec 6) ++ (32 : BitVec 6), 0⟩
  stallHold := false
  regHold := false
  respq := ⟨⟨0, 0, false⟩, fun _ => ⟨0, 0⟩⟩
  vcmdq := VCMDQ.reset ⟨0, false⟩
  vpfcmdq := VCMDQ.reset 0
  cmdCount := 19
  imm1Count := 19
  imm2Count := 17

theorem start_isReset : start.IsReset where
  config := rfl
  stallHold := rfl
  regHold := rfl
  respq := rfl
  vcmdq := ⟨rfl, rfl, rfl, rfl⟩
  vpfcmdq := ⟨rfl, rfl, rfl, rfl⟩
  counts := ⟨rfl, rfl, rfl⟩

/-- A program in user mode offers an instruction; the vector unit takes nothing. -/
def offer (inst : BitVec 32) (rs1 : BitVec 64) : DispatchIn where
  cmd := some ⟨inst, rs1, 0⟩
  s := false
  respReady := true
  topStall := false
  busy := false
  flushTop := false
  flushKill := false
  pending := false
  vcmdqReady := ⟨false, false, false, false⟩
  vpfcmdqReady := ⟨true, true, true, true⟩
  irqCause := 0
  irqAux := 0

/-- `vsetvl`, for four elements. -/
def setvl : DispatchIn := offer 0x0000600b 4

/-- `vmvv`. -/
def move : DispatchIn := offer 0x0200002b 0

theorem start_reachable : (machine chip zeros).Reachable (start, .empty) :=
  .init ⟨start_isReset, rfl⟩

theorem dispatch_once_move : (Machine.cycles (next zeros) (note zeros) [setvl, move]
    (start, .empty)).2.Once := by
  have hstart : ((machine chip zeros).restrict fun y i => y.1.Consistent zeros i).Reachable
      (start, .empty) := .init ⟨start_isReset, rfl⟩
  refine (dispatch_once zeros).2 _ (Machine.reachable_restrict_cycles hstart [setvl, move] ?_)
  exact ⟨consistent_of_agree (by decide), consistent_of_agree (by decide), trivial⟩

/-- **An instruction that waits is enqueued.** After eight moves in user mode the queue of the
commands has ten free places. The ninth is not taken, and the queue takes an entry for it. -/
theorem dispatch_repeats : ¬∀ (c : HwachaConfiguration) (x : BitVec 32 → DontCares)
    (y : Dispatch c × Log), (machine c x).Reachable y → ∀ i, y.1.AllOrNothing x i := by
  intro h
  have hreach := Machine.reachable_cycles start_reachable (setvl :: List.replicate 8 move)
  have htook : (Machine.cycles (next zeros) (note zeros) (setvl :: List.replicate 8 move)
      (start, .empty)).1.took zeros move .cmd = true := by decide
  have hacc : (Machine.cycles (next zeros) (note zeros) (setvl :: List.replicate 8 move)
      (start, .empty)).1.accepted zeros move = false := by decide
  rcases h chip zeros _ hreach move with ⟨h, -, -⟩ | ⟨-, h, -⟩
  · exact Bool.noConfusion (hacc.symm.trans h)
  · exact Bool.noConfusion ((h .cmd).symm.trans htook)

end Dispatch

end Hwacha

end RiscvSoc
