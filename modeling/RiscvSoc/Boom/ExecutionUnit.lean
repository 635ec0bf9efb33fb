import RiscvSoc.Boom.AddrCalc
import RiscvSoc.Boom.Issue
import RiscvSoc.Boom.CoreSources
import RiscvSoc.Rocket.MulDiv

/-!
# Functional and execution units

The functional units of `boom/src/main/scala/functional_unit.scala` and the five execution units
that `execute.scala` builds from them, one clock cycle at a time. An execution unit takes one
request a cycle, hands it to the functional unit its function code asks for, and puts the results on
its write ports. The iterative multiplier shares a port, with the ALU or with memory, and waits for
its turn.

## What is taken from where

A row of the two decode tables, `Decode.table` and the one in `RegisterReadDecode`, falls into one
of nine kinds (`ExeKind`), and a kind fixes the function code and the signals that say whether and
how a result is written. The row of `FENCE.I` leaves its function code open, so a micro-op of the
kind `nop` may have any.

What the load/store unit makes of its requests is left to the outside: `loads` are those it was
given and has not answered, and `MemAnswer` says which one it answers. So is the value of the
program counter, and what the CSR file reads.
-/

namespace RiscvSoc

variable {c : BOOMConf}

/-! ### Micro-ops -/

/-- The function codes. -/
abbrev FU_ALU : ℕ := 1
abbrev FU_BRU : ℕ := 2
abbrev FU_CNTR : ℕ := 4
abbrev FU_PCR : ℕ := 8
abbrev FU_MULD : ℕ := 16
abbrev FU_MEM : ℕ := 32

/-- The kinds of rows of the decode tables. `alu` is what has `bypassable` set, `link` is `AUIPC`,
`JAL` and `JALR`, and `nop` is what no unit has to execute. -/
inductive ExeKind
  | alu
  | link
  | branch
  | csr
  | mulDiv
  | load
  | sta
  | std
  | nop
  deriving DecidableEq, Repr

namespace ExeKind

/-- `fu_code`; that of `nop` is open. -/
def fuCode : ExeKind → ℕ
  | alu => FU_ALU
  | link | branch => FU_BRU
  | csr => FU_PCR
  | mulDiv => FU_MULD
  | load | sta | std => FU_MEM
  | nop => 0

/-- `ctrl.rf_wen`. A load gets it only when it is answered. -/
def rfWen : ExeKind → Bool
  | alu | link | csr | mulDiv => true
  | branch | load | sta | std | nop => false

/-- The row has a destination. -/
def hasDst : ExeKind → Bool
  | alu | link | csr | mulDiv | load => true
  | branch | sta | std | nop => false

/-- `bypassable`. -/
def bypassable (k : ExeKind) : Bool := decide (k = alu)

end ExeKind

/-- `op1_sel`. -/
inductive Op1Sel
  | rs1
  | zero
  | pc
  deriving DecidableEq, Repr

/-- `op2_sel`. -/
inductive Op2Sel
  | rs2
  | imm
  | immc
  | four
  | zero
  deriving DecidableEq, Repr

/-- The fields of a micro-op that the issue unit only passes on, and those that `RegisterReadDecode`
adds. -/
structure ExeInfo where
  kind : ExeKind
  immPacked : BitVec 20
  immSel : ImmSel
  op1Sel : Op1Sel
  op2Sel : Op2Sel
  opFcn : BitVec 4
  /-- `op_fcn`, as the multiplier reads it. -/
  mulDivFcn : MulDivFn
  /-- `fcn_dw` is `DW_XPR`. -/
  fcnDw : Bool

structure ExeUop (c : BOOMConf) extends IssueUop c where
  info : ExeInfo

namespace ExeUop

variable (u : ExeUop c)

/-- The kind of the row; the second half of a store is the row of `uopSTD`. -/
def kind : ExeKind := if u.uopc = .std then .std else u.info.kind

/-- The micro-op after a branch is resolved. -/
def resolve (brinfo : Option (BrResolutionInfo c)) : ExeUop c :=
  { u with brMask := getNewBrMask brinfo u.brMask }

/-- Which micro-op it is, and which half of it. -/
def key : ℕ × Bool := (u.seq, decide (u.uopc = .std))

variable (brinfo : Option (BrResolutionInfo c))

end ExeUop

/-- `FuncUnitReq`. -/
structure ExeReq (c : BOOMConf) where
  uop : ExeUop c
  rs1Data : Word
  rs2Data : Word

namespace ExeReq

variable (r : ExeReq c)

/-- What was read for an operand. -/
def data : Operand → Word
  | .first => r.rs1Data
  | .second => r.rs2Data

def op1Data (currPc : Word) : Word :=
  match r.uop.info.op1Sel with
  | .rs1 => r.rs1Data
  | .pc => currPc
  | .zero => 0

def op2Data : Word :=
  match r.uop.info.op2Sel with
  | .imm => aluImm r.uop.info.immPacked r.uop.info.immSel
  | .immc => BitVec.ofNat 64 (r.uop.pop1.val % 2 ^ 5)
  | .rs2 => r.rs2Data
  | .four => 4
  | .zero => 0

/-- `alu.io.out` of `ALUUnit`. -/
def aluOut (currPc : Word) : Word :=
  ALU.out ⟨r.uop.info.fcnDw, r.uop.info.opFcn, r.op2Data, r.op1Data currPc⟩

/-- The request of the multiplier. -/
def mulDivReq : MultiplierReq where
  fn := r.uop.info.mulDivFcn
  dw := if r.uop.info.fcnDw then .dw64 else .dw32
  in1 := r.rs1Data.toNat
  in2 := r.rs2Data.toNat
  tag := 0

end ExeReq

/-- What an execution unit puts on a write port. -/
structure ExeResp (c : BOOMConf) where
  uop : ExeUop c
  data : Word
  rfWen : Bool
  pdstRtype : RType

/-- The register file is written. -/
def ExeResp.writes (r : ExeResp c) : Bool := r.rfWen && decide (r.pdstRtype = .fix)

/-! ### The five classes -/

/-- `ALUExeUnit`, `MulDExeUnit`, `ALUMulDExeUnit`, `MemExeUnit` and `ALUMulDMemExeUnit`. -/
inductive ExeUnitKind
  | alu
  | mulD
  | aluMulD
  | mem
  | aluMulDMem
  deriving DecidableEq, Repr

namespace ExeUnitKind

/-- The units of a machine that issues one, two or three micro-ops a cycle. The first one has the
branch unit and the port of the CSR file. -/
def exeUnits (issueWidth : ℕ) : List ExeUnitKind :=
  if issueWidth = 1 then [aluMulDMem]
  else if issueWidth = 2 then [alu, aluMulDMem]
  else [alu, aluMulD, mem]

/-- The unit has an ALU; then it is bypassable, too. -/
def hasAlu : ExeUnitKind → Bool
  | alu | aluMulD | aluMulDMem => true
  | mulD | mem => false

def hasMulDiv : ExeUnitKind → Bool
  | mulD | aluMulD | aluMulDMem => true
  | alu | mem => false

def hasMem : ExeUnitKind → Bool
  | mem | aluMulDMem => true
  | alu | mulD | aluMulD => false

variable (k : ExeUnitKind) (req : Option (ExeReq c))

/-- `alu.io.req`. -/
def aluReq : Option (ExeReq c) :=
  match k with
  | alu => req
  | aluMulD | aluMulDMem => req.filter fun r => decide (r.uop.fuCode = FU_ALU ∨
      r.uop.fuCode = FU_BRU ∨ r.uop.fuCode = FU_PCR ∨ r.uop.fuCode = FU_CNTR)
  | mulD | mem => none

/-- `muldiv.io.req`. -/
def mulDivReq : Option (ExeReq c) :=
  match k with
  | mulD => req
  | aluMulD | aluMulDMem => req.filter fun r => decide (r.uop.fuCode = FU_MULD)
  | alu | mem => none

/-- `maddrcalc.io.req`. -/
def memReq : Option (ExeReq c) := if k.hasMem then req else none

/-- The function codes the unit supports, if its multiplier is free. -/
def codes (first mulDivFree : Bool) : ℕ :=
  let pcr := if first then FU_PCR else 0
  let bru := if first then FU_BRU else 0
  let muld := if mulDivFree then FU_MULD else 0
  match k with
  | alu => FU_ALU ||| FU_CNTR ||| pcr ||| bru
  | mulD => muld
  | aluMulD => FU_ALU ||| FU_CNTR ||| muld ||| pcr ||| bru
  | mem => FU_MEM
  | aluMulDMem => FU_ALU ||| FU_CNTR ||| FU_MEM ||| muld ||| pcr ||| bru

end ExeUnitKind

/-! ### Execution units -/

structure ExeUnit (c : BOOMConf) where
  /-- `r_uops(0)` and `reg_data` of the ALU, and `r_valids(0)` as the option around them. -/
  alu : Option (ExeUop c × Word)
  /-- `r_uop` of `MulDivUnit`. -/
  mulDivUop : ExeUop c
  mulDiv : MulDiv
  /-- The loads that the load/store unit was given and has not answered. -/
  loads : List (ExeUop c)

/-- `memresp`: the answer to a load, or a store that is done. -/
inductive MemAnswer
  | load (k : ℕ) (data : Word)
  | store

/-- What an execution unit sees in one cycle. -/
structure ExeUnitInput (c : BOOMConf) where
  req : Option (ExeReq c)
  brinfo : Option (BrResolutionInfo c)
  /-- `io.req.bits.kill`. -/
  kill : Bool
  currPc : Word
  memAnswer : Option MemAnswer

namespace ExeUnit

variable (conf : MulDivConfig) (k : ExeUnitKind) (s : ExeUnit c) (i : ExeUnitInput c)

/-! #### Responses -/

/-- `alu.io.resp`. -/
def aluResp : Option (ExeResp c) :=
  (s.alu.filter fun x => !isKilledByBranch i.brinfo x.1.brMask).map fun x =>
    ⟨x.1.resolve i.brinfo, x.2, x.1.kind.rfWen, x.1.ldstRtype⟩

/-- `memresp_val`. -/
def memRespVal : Bool :=
  match i.memAnswer with
  | some (.load n _) => decide (n < s.loads.length)
  | some .store => true
  | none => false

/-- `memresp`, if it is the answer to a load. -/
def memResp : Option (ExeResp c) :=
  match i.memAnswer with
  | some (.load n d) => s.loads[n]?.map fun u => ⟨u, d, true, .fix⟩
  | _ => none

/-- `muldiv.io.resp.ready`. -/
def mulDivReady : Bool :=
  match k with
  | .aluMulD => !(s.aluResp i).isSome
  | .aluMulDMem => !s.memRespVal i
  | _ => true

/-- `muldiv.io.resp`. -/
def mulDivResp : Option (ExeResp c) :=
  if s.mulDiv.respValid then
    some ⟨s.mulDivUop, BitVec.ofNat 64 s.mulDiv.respData, s.mulDivUop.kind.rfWen,
      if k = .aluMulDMem then .fix else s.mulDivUop.ldstRtype⟩
  else none

/-- `io.resp`, without the stores that are done. -/
def ports : List (Option (ExeResp c)) :=
  match k with
  | .alu => [s.aluResp i]
  | .mulD => [s.mulDivResp k]
  | .aluMulD => [(s.aluResp i).or (s.mulDivResp k)]
  | .mem => [s.memResp i]
  | .aluMulDMem => [s.aluResp i, if s.memRespVal i then s.memResp i else s.mulDivResp k]

/-- `io.bypass`, the ports whose `valid` is up. -/
def bypass : List (ExeUop c × Word) :=
  ((k.aluReq i.req).map fun r => (r.uop, r.aluOut i.currPc)).toList ++
    ((s.aluResp i).map fun r => (r.uop, r.data)).toList

/-! #### The registers after a cycle -/

/-- The pipeline flush and a mispredicted branch drop a micro-op. -/
def drops (u : ExeUop c) : Bool := i.kill || isKilledByBranch i.brinfo u.brMask

/-- `io.req.fire()` of `MulDivUnit`. -/
def mulDivFire : Option (ExeReq c) :=
  if s.mulDiv.state = .sReady then k.mulDivReq i.req else none

/-- `do_kill`. -/
def doKill : Bool :=
  match s.mulDivFire k i with
  | some r => drops i r.uop
  | none => drops i s.mulDivUop

def mulDivIn : MulDivIn where
  reqValid := (k.mulDivReq i.req).isSome && !s.doKill k i
  req := ((k.mulDivReq i.req).map ExeReq.mulDivReq).getD ⟨.mul, .dw64, 0, 0, 0⟩
  kill := s.doKill k i
  respReady := s.mulDivReady k i

/-- The loads that are not answered in this cycle. -/
def waiting : List (ExeUop c) :=
  match i.memAnswer with
  | some (.load n _) => s.loads.eraseIdx n
  | _ => s.loads

/-- The load that is handed to the load/store unit. -/
def newLoad : Option (ExeUop c) :=
  ((k.memReq i.req).filter fun r => decide (r.uop.kind = .load)).map ExeReq.uop

/-- What is left of a micro-op after this cycle. -/
def keep (u : ExeUop c) : Option (ExeUop c) :=
  if drops i u then none else some (u.resolve i.brinfo)

/-- One cycle. -/
def next : ExeUnit c where
  alu := (k.aluReq i.req).bind fun r => (keep i r.uop).map fun u => (u, r.aluOut i.currPc)
  mulDivUop := match s.mulDivFire k i with
    | some r => r.uop.resolve i.brinfo
    | none => s.mulDivUop.resolve i.brinfo
  mulDiv := MulDiv.next conf s.mulDiv (s.mulDivIn k i)
  loads := (s.waiting i).filterMap (keep i) ++ ((newLoad k i).bind (keep i)).toList

/-- `io.fu_types`. -/
def fuTypes (first : Bool) (req : Option (ExeReq c)) : ℕ :=
  k.codes first (decide (s.mulDiv.state = .sReady) && !(k.mulDivReq req).isSome)

structure IsReset : Prop where
  alu : s.alu = none
  mulDiv : s.mulDiv.state = .sReady
  loads : s.loads = []

end ExeUnit

/-! ### The multiplier's handshake -/

namespace MulDiv

variable {conf : MulDivConfig} {s : MulDiv} {io : MulDivIn}

theorem next_of_not_reqFire (h : s.reqFire io = false) : next conf s io =
    if s.respFire io || io.kill then { s.advance conf with state := .sReady }
    else s.advance conf := by
  rw [next, h, if_neg (by simp)]

/-- The unit is busy because it took a request, or because it goes on with the last one. -/
theorem of_state_next_ne (h : (next conf s io).state ≠ .sReady) : s.reqFire io = true ∨
    s.state ≠ .sReady ∧ s.respFire io = false ∧ io.kill = false := by
  cases hreq : s.reqFire io with
  | true => exact .inl rfl
  | false =>
    rw [next_of_not_reqFire hreq] at h
    cases hend : s.respFire io || io.kill with
    | true =>
      rw [hend] at h
      exact absurd rfl h
    | false =>
      rw [hend, if_neg (by simp)] at h
      obtain ⟨hresp, hkill⟩ := Bool.or_eq_false_iff.mp hend
      refine .inr ⟨?_, hresp, hkill⟩
      intro hready
      rw [advance, hready] at h
      exact h hready

theorem state_advance_ne (h : s.state ≠ .sReady) : (s.advance conf).state ≠ .sReady := by
  cases hstate : s.state with
  | sReady => exact absurd hstate h
  | sNegInputs | sNegOutput =>
    rw [advance, hstate]
    intro hnext
    cases hnext
  | sMoveRem =>
    rw [advance, hstate]
    show (if s.negOut then MulDivState.sNegOutput else .sDone) ≠ .sReady
    split <;> simp
  | sDone =>
    rw [advance, hstate]
    exact h
  | sBusy =>
    rw [advance, hstate]
    cases hmul : s.isMul with
    | true =>
      simp only [if_true, mulStep, hstate]
      repeat' split
      all_goals simp
    | false =>
      simp only [Bool.false_eq_true, if_false, divStep, hstate]
      repeat' split
      all_goals simp

theorem state_next_ne_of_reqFire (h : s.reqFire io = true) : (next conf s io).state ≠ .sReady := by
  rw [next, if_pos h, accept]
  dsimp only
  split <;> simp

theorem state_next_ne_of_busy (h : s.state ≠ .sReady) (hresp : s.respFire io = false)
    (hkill : io.kill = false) : (next conf s io).state ≠ .sReady := by
  have hreq : s.reqFire io = false := by
    rw [reqFire, beq_false_of_ne h]
    rfl
  rw [next_of_not_reqFire hreq, hresp, hkill]
  exact state_advance_ne h

theorem next_of_waits (hvalid : s.respValid = true) (hready : io.respReady = false)
    (hkill : io.kill = false) : next conf s io = s := by
  have hdone : s.state = .sDone := eq_of_beq hvalid
  have hreq : s.reqFire io = false := by
    rw [reqFire, hdone]
    rfl
  rw [next_of_not_reqFire hreq, respFire, hready, hkill, Bool.and_false, Bool.false_or,
    if_neg (by simp), advance, hdone]

end MulDiv

/-! ### Function codes -/

namespace ExeUnitKind

variable {k : ExeUnitKind} {first free : Bool} {req : Option (ExeReq c)} {r : ExeReq c}

theorem of_codes_alu (h : FU_ALU &&& k.codes first free ≠ 0) : k.hasAlu = true := by
  cases k <;> cases first <;> cases free <;> first | rfl | exact absurd (by decide) h

theorem of_codes_bru (h : FU_BRU &&& k.codes first free ≠ 0) :
    k.hasAlu = true ∧ first = true := by
  cases k <;> cases first <;> cases free <;> first
    | exact ⟨rfl, rfl⟩
    | exact absurd (by decide) h

theorem of_codes_pcr (h : FU_PCR &&& k.codes first free ≠ 0) :
    k.hasAlu = true ∧ first = true := by
  cases k <;> cases first <;> cases free <;> first
    | exact ⟨rfl, rfl⟩
    | exact absurd (by decide) h

theorem of_codes_muld (h : FU_MULD &&& k.codes first free ≠ 0) :
    k.hasMulDiv = true ∧ free = true := by
  cases k <;> cases first <;> cases free <;> first
    | exact ⟨rfl, rfl⟩
    | exact absurd (by decide) h

theorem of_codes_mem (h : FU_MEM &&& k.codes first free ≠ 0) : k.hasMem = true := by
  cases k <;> cases first <;> cases free <;> first | rfl | exact absurd (by decide) h

/-- What the unit may get at all is what it may get while its multiplier is free. -/
theorem codes_mono {n : ℕ} (h : n &&& k.codes first free ≠ 0) : n &&& k.codes first true ≠ 0 := by
  intro hzero
  refine h (Nat.eq_of_testBit_eq ?_)
  intro j
  have hj := congrArg (fun x => Nat.testBit x j) hzero
  rw [Nat.testBit_and, Nat.zero_testBit] at hj ⊢
  cases free
  · cases k <;> cases first <;> simp_all [codes, Nat.testBit_or]
  · exact hj

theorem of_aluReq (h : k.aluReq req = some r) : req = some r ∧ k.hasAlu = true ∧
    (k = .alu ∨ r.uop.fuCode = FU_ALU ∨ r.uop.fuCode = FU_BRU ∨ r.uop.fuCode = FU_PCR ∨
      r.uop.fuCode = FU_CNTR) := by
  cases k with
  | alu => exact ⟨h, rfl, .inl rfl⟩
  | aluMulD | aluMulDMem =>
    obtain ⟨hreq, hcode⟩ := Option.filter_eq_some_iff.mp h
    exact ⟨hreq, rfl, .inr (of_decide_eq_true hcode)⟩
  | mulD | mem => cases h

theorem aluReq_of_code (hreq : req = some r) (hcode : r.uop.fuCode = FU_ALU ∨
    r.uop.fuCode = FU_BRU ∨ r.uop.fuCode = FU_PCR ∨ r.uop.fuCode = FU_CNTR)
    (hk : k.hasAlu = true) : k.aluReq req = some r := by
  subst hreq
  cases k with
  | alu => rfl
  | aluMulD | aluMulDMem =>
    rw [aluReq, Option.filter_eq_some_iff]
    exact ⟨rfl, decide_eq_true hcode⟩
  | mulD | mem => cases hk

theorem of_mulDivReq (h : k.mulDivReq req = some r) : req = some r ∧ k.hasMulDiv = true ∧
    (k = .mulD ∨ r.uop.fuCode = FU_MULD) := by
  cases k with
  | mulD => exact ⟨h, rfl, .inl rfl⟩
  | aluMulD | aluMulDMem =>
    obtain ⟨hreq, hcode⟩ := Option.filter_eq_some_iff.mp h
    exact ⟨hreq, rfl, .inr (of_decide_eq_true hcode)⟩
  | alu | mem => cases h

theorem mulDivReq_of_code (hreq : req = some r) (hcode : r.uop.fuCode = FU_MULD)
    (hk : k.hasMulDiv = true) : k.mulDivReq req = some r := by
  subst hreq
  cases k with
  | mulD => rfl
  | aluMulD | aluMulDMem =>
    rw [mulDivReq, Option.filter_eq_some_iff]
    exact ⟨rfl, decide_eq_true hcode⟩
  | alu | mem => cases hk

theorem aluReq_of_mulDivReq (h : k.mulDivReq req = some r) : k.aluReq req = none := by
  obtain ⟨rfl, -, hcode⟩ := of_mulDivReq h
  cases k with
  | alu | mem => cases h
  | mulD => rfl
  | aluMulD | aluMulDMem =>
    have hmuld := hcode.resolve_left fun h => by cases h
    simp [aluReq, hmuld]

theorem aluReq_of_mem (hk : k.hasMem = true) (hcode : r.uop.fuCode = FU_MEM) :
    k.aluReq (some r) = none ∧ k.mulDivReq (some r) = none := by
  cases k with
  | mem => exact ⟨rfl, rfl⟩
  | aluMulDMem => simp [aluReq, mulDivReq, hcode]
  | alu | mulD | aluMulD => cases hk

theorem of_memReq (h : k.memReq req = some r) : req = some r ∧ k.hasMem = true := by
  rw [memReq] at h
  split at h
  · exact ⟨h, ‹_›⟩
  · cases h

end ExeUnitKind

/-! ### One cycle of an execution unit -/

namespace ExeUnit

variable {conf : MulDivConfig} {k : ExeUnitKind} {s : ExeUnit c} {i : ExeUnitInput c}
  {u v : ExeUop c} {r : ExeResp c} {d : Word}

theorem keep_eq_some : keep i u = some v ↔ drops i u = false ∧ v = u.resolve i.brinfo := by
  rw [keep]
  cases drops i u <;> simp [eq_comm]

theorem alu_next : (next conf k s i).alu = some (v, d) ↔ ∃ q, k.aluReq i.req = some q ∧
    drops i q.uop = false ∧ v = q.uop.resolve i.brinfo ∧ d = q.aluOut i.currPc := by
  show (k.aluReq i.req).bind _ = some (v, d) ↔ _
  rw [Option.bind_eq_some_iff]
  refine exists_congr fun q => and_congr_right fun _ => ?_
  rw [Option.map_eq_some_iff]
  constructor
  · rintro ⟨u, hu, heq⟩
    cases heq
    obtain ⟨hdrop, hres⟩ := keep_eq_some.mp hu
    exact ⟨hdrop, hres, rfl⟩
  · rintro ⟨hdrop, rfl, rfl⟩
    exact ⟨_, keep_eq_some.mpr ⟨hdrop, rfl⟩, rfl⟩

theorem newLoad_eq_some : newLoad k i = some u ↔
    ∃ q, k.memReq i.req = some q ∧ q.uop = u ∧ u.kind = .load := by
  rw [newLoad, Option.map_eq_some_iff]
  refine exists_congr fun q => ?_
  rw [Option.filter_eq_some_iff, decide_eq_true_eq]
  constructor
  · rintro ⟨⟨hreq, hload⟩, rfl⟩
    exact ⟨hreq, rfl, hload⟩
  · rintro ⟨hreq, rfl, hload⟩
    exact ⟨⟨hreq, hload⟩, rfl⟩

theorem mem_loads_next : v ∈ (next conf k s i).loads ↔ ∃ u, (u ∈ s.waiting i ∨
    newLoad k i = some u) ∧ drops i u = false ∧ v = u.resolve i.brinfo := by
  show v ∈ (s.waiting i).filterMap (keep i) ++ ((newLoad k i).bind (keep i)).toList ↔ _
  rw [List.mem_append, List.mem_filterMap, Option.mem_toList, Option.bind_eq_some_iff]
  simp only [keep_eq_some]
  constructor
  · rintro (⟨u, hu, h⟩ | ⟨u, hu, h⟩)
    · exact ⟨u, .inl hu, h⟩
    · exact ⟨u, .inr hu, h⟩
  · rintro ⟨u, hu | hu, h⟩
    · exact .inl ⟨u, hu, h⟩
    · exact .inr ⟨u, hu, h⟩

theorem mem_of_waiting (h : u ∈ s.waiting i) : u ∈ s.loads := by
  rw [waiting] at h
  split at h
  · exact List.mem_of_mem_eraseIdx h
  · exact h

/-! #### The multiplier -/

theorem mulDivFire_eq_some {q : ExeReq c} : s.mulDivFire k i = some q ↔
    s.mulDiv.state = .sReady ∧ k.mulDivReq i.req = some q := by
  rw [mulDivFire]
  split
  case isTrue h => exact (and_iff_right h).symm
  case isFalse h => exact iff_of_false (fun h' => by cases h') fun h' => h h'.1

/-- **What the multiplier works on** it was just given, or goes on working on. -/
theorem of_mulDiv_next (h : (next conf k s i).mulDiv.state ≠ .sReady) :
    (∃ q, s.mulDivFire k i = some q ∧ drops i q.uop = false ∧
      (next conf k s i).mulDivUop = q.uop.resolve i.brinfo) ∨
    s.mulDiv.state ≠ .sReady ∧ drops i s.mulDivUop = false ∧
      (s.mulDiv.respValid = true → s.mulDivReady k i = false) ∧
      (next conf k s i).mulDivUop = s.mulDivUop.resolve i.brinfo := by
  rcases MulDiv.of_state_next_ne h with hreq | ⟨hbusy, hresp, hkill⟩
  · obtain ⟨hready, hvalid⟩ := Bool.and_eq_true_iff.mp hreq
    have hstate : s.mulDiv.state = .sReady := eq_of_beq hready
    obtain ⟨hsome, hkill⟩ := Bool.and_eq_true_iff.mp hvalid
    obtain ⟨q, hq⟩ := Option.isSome_iff_exists.mp hsome
    have hfire : s.mulDivFire k i = some q := mulDivFire_eq_some.mpr ⟨hstate, hq⟩
    rw [Bool.not_eq_true', doKill, hfire] at hkill
    refine .inl ⟨q, hfire, hkill, ?_⟩
    simp only [next, hfire]
  · have hfire : s.mulDivFire k i = none := if_neg hbusy
    have hdrop : s.doKill k i = false := hkill
    rw [doKill, hfire] at hdrop
    refine .inr ⟨hbusy, hdrop, ?_, ?_⟩
    · intro hvalid
      have hnot : (s.mulDiv.respValid && s.mulDivReady k i) = false := hresp
      rwa [hvalid, Bool.true_and] at hnot
    · simp only [next, hfire]

theorem mulDiv_starts {q : ExeReq c} (h : s.mulDivFire k i = some q)
    (hdrop : drops i q.uop = false) : (next conf k s i).mulDiv.state ≠ .sReady ∧
      (next conf k s i).mulDivUop = q.uop.resolve i.brinfo := by
  obtain ⟨hstate, hreq⟩ := mulDivFire_eq_some.mp h
  refine ⟨MulDiv.state_next_ne_of_reqFire ?_, by simp only [next, h]⟩
  show (s.mulDiv.state == .sReady && ((k.mulDivReq i.req).isSome && !s.doKill k i)) = true
  have hkill : s.doKill k i = false := by
    simp only [doKill, h]
    exact hdrop
  rw [hstate, hreq, hkill]
  rfl

theorem mulDiv_works (h : s.mulDiv.state ≠ .sReady)
    (hwait : s.mulDiv.respValid = true → s.mulDivReady k i = false)
    (hdrop : drops i s.mulDivUop = false) : (next conf k s i).mulDiv.state ≠ .sReady ∧
      (next conf k s i).mulDivUop = s.mulDivUop.resolve i.brinfo := by
  have hfire : s.mulDivFire k i = none := if_neg h
  have hkill : (s.mulDivIn k i).kill = false := by
    show s.doKill k i = false
    rw [doKill, hfire]
    exact hdrop
  refine ⟨MulDiv.state_next_ne_of_busy h ?_ hkill, by simp only [next, hfire]⟩
  show (s.mulDiv.respValid && s.mulDivReady k i) = false
  cases hvalid : s.mulDiv.respValid with
  | true => rw [hwait hvalid, Bool.and_false]
  | false => rfl

theorem mulDivResp_eq_some : s.mulDivResp k = some r ↔ s.mulDiv.respValid = true ∧
    r = ⟨s.mulDivUop, BitVec.ofNat 64 s.mulDiv.respData, s.mulDivUop.kind.rfWen,
      if k = .aluMulDMem then .fix else s.mulDivUop.ldstRtype⟩ := by
  rw [mulDivResp]
  cases s.mulDiv.respValid <;> simp [eq_comm]

theorem state_ne_of_respValid (h : s.mulDiv.respValid = true) : s.mulDiv.state ≠ .sReady := by
  intro hready
  rw [MulDiv.respValid, hready] at h
  cases h

/-- **A result of the multiplier that is not taken is offered again**, unless it is dropped. -/
theorem mulDiv_waits (h : s.mulDivResp k = some r) (hready : s.mulDivReady k i = false)
    (hdrop : drops i r.uop = false) : (next conf k s i).mulDivResp k =
      some { r with uop := r.uop.resolve i.brinfo } := by
  obtain ⟨hvalid, rfl⟩ := mulDivResp_eq_some.mp h
  have hfire : s.mulDivFire k i = none := if_neg (state_ne_of_respValid hvalid)
  have hkill : (s.mulDivIn k i).kill = false := by
    show s.doKill k i = false
    rw [doKill, hfire]
    exact hdrop
  have hmul : (next conf k s i).mulDiv = s.mulDiv := MulDiv.next_of_waits hvalid hready hkill
  have huop : (next conf k s i).mulDivUop = s.mulDivUop.resolve i.brinfo := by
    simp only [next, hfire]
  rw [mulDivResp_eq_some, hmul, huop]
  exact ⟨hvalid, rfl⟩

/-! #### The write ports -/

theorem aluResp_eq_some : s.aluResp i = some r ↔ ∃ u d, s.alu = some (u, d) ∧
    isKilledByBranch i.brinfo u.brMask = false ∧
    r = ⟨u.resolve i.brinfo, d, u.kind.rfWen, u.ldstRtype⟩ := by
  rw [aluResp, Option.map_eq_some_iff]
  constructor
  · rintro ⟨⟨u, d⟩, hx, rfl⟩
    obtain ⟨halu, hkill⟩ := Option.filter_eq_some_iff.mp hx
    exact ⟨u, d, halu, Bool.not_eq_true' _ ▸ hkill, rfl⟩
  · rintro ⟨u, d, halu, hkill, rfl⟩
    exact ⟨(u, d), Option.filter_eq_some_iff.mpr ⟨halu, by rw [hkill]; rfl⟩, rfl⟩

theorem memResp_eq_some : s.memResp i = some r ↔ ∃ n d u, i.memAnswer = some (.load n d) ∧
    s.loads[n]? = some u ∧ r = ⟨u, d, true, .fix⟩ := by
  rw [memResp]
  constructor
  · intro h
    split at h
    next n d heq =>
      obtain ⟨u, hu, rfl⟩ := Option.map_eq_some_iff.mp h
      exact ⟨n, d, u, heq, hu, rfl⟩
    next => cases h
  · rintro ⟨n, d, u, heq, hu, rfl⟩
    rw [heq]
    exact Option.map_eq_some_iff.mpr ⟨u, hu, rfl⟩

theorem memRespVal_of_memResp (h : s.memResp i = some r) : s.memRespVal i = true := by
  obtain ⟨n, d, u, heq, hu, -⟩ := memResp_eq_some.mp h
  obtain ⟨hlt, -⟩ := List.getElem?_eq_some_iff.mp hu
  rw [memRespVal, heq]
  exact decide_eq_true hlt

/-- **What is on a port** comes from the ALU, from memory, or from a multiplier whose turn it is.
The first port is that of the ALU. -/
theorem of_ports_getElem {j : ℕ} (h : (s.ports k i)[j]? = some (some r)) :
    j = 0 ∧ k.hasAlu = true ∧ s.aluResp i = some r ∨ s.memResp i = some r ∨
      s.mulDivResp k = some r ∧ s.mulDivReady k i = true := by
  have hzero {x : Option (ExeResp c)} (hx : [x][j]? = some (some r)) : j = 0 ∧ x = some r := by
    obtain ⟨hj, hget⟩ := List.getElem?_eq_some_iff.mp hx
    cases Nat.lt_one_iff.mp hj
    exact ⟨rfl, hget⟩
  cases k with
  | alu => exact .inl ⟨(hzero h).1, rfl, (hzero h).2⟩
  | mulD => exact .inr (.inr ⟨(hzero h).2, rfl⟩)
  | mem => exact .inr (.inl (hzero h).2)
  | aluMulD =>
    obtain ⟨hj, hor⟩ := hzero h
    rw [mulDivReady]
    cases halu : s.aluResp i with
    | some x =>
      rw [halu] at hor
      exact .inl ⟨hj, rfl, hor⟩
    | none =>
      rw [halu] at hor
      exact .inr (.inr ⟨hor, rfl⟩)
  | aluMulDMem =>
    cases j with
    | zero => exact .inl ⟨rfl, rfl, Option.some.inj h⟩
    | succ j =>
      have hport : [if s.memRespVal i then s.memResp i else s.mulDivResp .aluMulDMem][j]? =
        some (some r) := h
      obtain ⟨hj, hget⟩ := List.getElem?_eq_some_iff.mp hport
      cases Nat.lt_one_iff.mp hj
      rw [List.getElem_cons_zero] at hget
      rw [mulDivReady]
      cases hmem : s.memRespVal i with
      | true =>
        rw [hmem, if_pos rfl] at hget
        exact .inr (.inl hget)
      | false =>
        rw [hmem, if_neg (by simp)] at hget
        exact .inr (.inr ⟨hget, rfl⟩)

theorem ports_getElem_zero (hk : k.hasAlu = true) (h : s.aluResp i = some r) :
    (s.ports k i)[0]? = some (some r) := by
  cases k with
  | alu | aluMulDMem => exact congrArg some h
  | aluMulD =>
    rw [ports, h]
    rfl
  | mulD | mem => cases hk

theorem memResp_mem_ports (hk : k.hasMem = true) (h : s.memResp i = some r) :
    some r ∈ s.ports k i := by
  cases k with
  | mem => exact List.mem_singleton.mpr h.symm
  | aluMulDMem =>
    refine List.mem_cons_of_mem _ (List.mem_singleton.mpr ?_)
    rw [memRespVal_of_memResp h, if_pos rfl, h]
  | alu | mulD | aluMulD => cases hk

theorem mulDivResp_mem_ports (hk : k.hasMulDiv = true) (h : s.mulDivResp k = some r)
    (hready : s.mulDivReady k i = true) : some r ∈ s.ports k i := by
  cases k with
  | mulD => exact List.mem_singleton.mpr h.symm
  | aluMulD =>
    have hnone : s.aluResp i = none := by simpa [mulDivReady] using hready
    refine List.mem_singleton.mpr ?_
    rw [hnone, h]
    rfl
  | aluMulDMem =>
    have hmem : s.memRespVal i = false := by simpa [mulDivReady] using hready
    refine List.mem_cons_of_mem _ (List.mem_singleton.mpr ?_)
    rw [hmem, if_neg (by simp), h]
  | alu | mem => cases hk

end ExeUnit

end RiscvSoc
