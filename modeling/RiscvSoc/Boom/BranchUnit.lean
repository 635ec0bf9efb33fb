import RiscvSoc.Boom.BranchPredict

/-!
# The branch unit

The branch unit inside `ALUUnit` of `boom/src/main/scala/functional_unit.scala`, the packed
immediates it works on (`DecodeUnit` in `decode.scala`, `ImmGen` in `util.scala`), and the successor
of an instruction in the instruction set it is compared with.

Three addresses are cut short on the way. The program counter comes out of the reorder buffer
without its sign, a target is kept in 44 bits with a sign that `vaSign` makes up, and the front end
throws the lowest bit of a target away. The results are about successors that survive this, that
is, whose upper bits agree (`Canonical`). What `vaSign` says of any other target is left open.
-/

namespace RiscvSoc

open Inst

/-! ### The instruction set -/

namespace Inst

/-- The condition of a branch. -/
def BrType.holds (t : BrType) (rs1 rs2 : BitVec 64) : Bool :=
  match t with
  | .eq => rs1 == rs2
  | .ne => rs1 != rs2
  | .lt => rs1.slt rs2
  | .ge => !rs1.slt rs2
  | .ltu => rs1.ult rs2
  | .geu => !rs1.ult rs2

/-- The branch or jump does not fall through. -/
def takes (inst : BitVec 32) (rs1 rs2 : BitVec 64) : Bool :=
  match brType inst with
  | some t => t.holds rs1 rs2
  | none => isJal inst || isJalr inst

end Inst

/-- The successor of an instruction. -/
def archNext (pc : BitVec 64) (inst : BitVec 32) (rs1 rs2 : BitVec 64) : BitVec 64 :=
  if takes inst rs1 rs2 then
    if isJalr inst then (rs1 + (Inst.immI inst).signExtend 64) &&& ~~~1#64
    else pc + offset inst 64
  else pc + 4

/-- A virtual address: 44 bits that agree with all above them, and with each other at the top. -/
def Canonical (a : BitVec 64) : Prop :=
  (a.setWidth 44).signExtend 64 = a ∧ goodVAddr (a.setWidth 44) = true

/-! ### Immediates -/

/-- `imm_sel`. -/
inductive ImmSel
  | i
  | s
  | b
  | u
  | j
  deriving DecidableEq, Repr

/-- `imm_packed`. -/
def immPacked (inst : BitVec 32) (sel : ImmSel) : BitVec 20 :=
  inst.extractLsb' 25 7 ++
    (if sel = .b ∨ sel = .s then inst.extractLsb' 7 5 else inst.extractLsb' 20 5) ++
    inst.extractLsb' 12 8

/-- `ImmGen`. -/
def immGen (ip : BitVec 20) (sel : ImmSel) : BitVec 32 :=
  let sign := ip.getLsbD 19
  let i30_20 := if sel = .u then ip.extractLsb' 8 11 else BitVec.fill 11 sign
  let i19_12 := if sel = .u ∨ sel = .j then ip.extractLsb' 0 8 else BitVec.fill 8 sign
  let i11 :=
    if sel = .u then 0#1 else if sel = .j ∨ sel = .b then ip.extractLsb' 8 1 else BitVec.fill 1 sign
  let i10_5 := if sel = .u then 0#5 else ip.extractLsb' 14 5
  let i4_1 := if sel = .u then 0#5 else ip.extractLsb' 9 5
  let i0 := if sel = .s ∨ sel = .i then ip.extractLsb' 8 1 else 0#1
  BitVec.fill 1 sign ++ i30_20 ++ i19_12 ++ i11 ++ i10_5 ++ i4_1 ++ i0

/-- The row of the decode table. -/
def immSel (inst : BitVec 32) : ImmSel :=
  if isJal inst then .j else if isJalr inst then .i else .b

/-! ### The unit -/

/-- `pc_sel`. -/
inductive PcSel
  | plus4
  | brjmp
  | jalr
  deriving DecidableEq, Repr

/-- A micro-op in the branch unit, and what was read for it. -/
structure BranchUnit where
  uop : Fetched
  rs1 : BitVec 64
  rs2 : BitVec 64
  /-- `io.get_rob_pc`. -/
  currPc : BitVec 64
  nextVal : Bool
  nextPc : BitVec 64

namespace BranchUnit

variable (s : BranchUnit)

def brEq : Bool := s.rs1 == s.rs2

def brLtu : Bool := s.rs1.ult s.rs2

def brLt : Bool :=
  !(s.rs1.getLsbD 63 ^^ s.rs2.getLsbD 63) && s.brLtu || s.rs1.getLsbD 63 && !s.rs2.getLsbD 63

def pcSel : PcSel :=
  match brType s.uop.inst with
  | some .eq => if s.brEq then .brjmp else .plus4
  | some .ne => if !s.brEq then .brjmp else .plus4
  | some .lt => if s.brLt then .brjmp else .plus4
  | some .ge => if !s.brLt then .brjmp else .plus4
  | some .ltu => if s.brLtu then .brjmp else .plus4
  | some .geu => if !s.brLtu then .brjmp else .plus4
  | none =>
    if isJal s.uop.inst then .brjmp else if isJalr s.uop.inst then .jalr else .plus4

/-- `io.br_unit.taken` of a micro-op that is valid and not killed. -/
def taken : Bool := isBrOrJmp s.uop.inst && decide (s.pcSel ≠ .plus4)

/-! #### Targets -/

/-- The sign of a target in 44 bits. -/
def vaSign (a0 ea : BitVec 64) : Bool :=
  let a := a0.extractLsb' (vaddrBits - 1) 22
  let e := ea.extractLsb' (vaddrBits - 1) 2
  if a = 0 ∨ a = 1 then e != 0
  else if a = -1 ∨ a = -2 then e == -1
  else e.getLsbD 0

def bjBase : BitVec 64 := if isJalr s.uop.inst then s.rs1 else s.currPc

/-- `bj_offset`, of the `imm_packed` the decoder made. -/
def bjOffset : BitVec 21 :=
  let sel := immSel s.uop.inst
  (immGen (immPacked s.uop.inst sel) sel).setWidth 21

def bj64 : BitVec 64 := s.bjBase + s.bjOffset.signExtend 64

/-- `bj_addr`, which is `brjmp_target` and `jump_reg_target`. -/
def bjAddr : VAddr := BitVec.ofBool (vaSign s.bjBase s.bj64) ++ s.bj64.setWidth 43

def pcPlus4 : BitVec 64 := s.currPc + 4

/-! #### Answers -/

/-- `mispredict` of a micro-op that is valid and not killed. -/
def mispredict : Bool :=
  isBrOrJmp s.uop.inst && !isJal s.uop.inst &&
    ((s.taken ^^ s.uop.brTaken) && !s.uop.btbPredTaken || !s.taken && s.uop.btbPredTaken ||
      s.taken && s.uop.btbPredTaken && decide (s.pcSel = .jalr) &&
        (!s.nextVal || s.nextPc != s.bjAddr.setWidth 64))

/-- The address `if_pc_next` is given. -/
def redirect : VAddr :=
  match s.pcSel with
  | .jalr => s.bjAddr
  | .brjmp => s.bjAddr
  | .plus4 => s.pcPlus4.setWidth 44

end BranchUnit

/-! ### What the unit computes -/

namespace BranchUnit

variable {s : BranchUnit}

theorem bjOffset_eq : s.bjOffset =
    if isJal s.uop.inst then Inst.immJ s.uop.inst
    else if isJalr s.uop.inst then (Inst.immI s.uop.inst).signExtend 21
    else (Inst.immB s.uop.inst).signExtend 21 := by
  rw [bjOffset, immSel]
  split_ifs
  all_goals
    apply BitVec.eq_of_getLsbD_eq
    intro i hi
    simp only [immGen, immPacked, Inst.immJ, Inst.immI, Inst.immB, BitVec.getLsbD_setWidth,
      BitVec.getLsbD_append, BitVec.getLsbD_signExtend, BitVec.msb_eq_getLsbD_last,
      BitVec.getLsbD_extractLsb', BitVec.getLsbD_fill, reduceCtorEq, or_true, or_false, if_true,
      if_false]
    interval_cases i <;> simp

theorem brLt_eq : s.brLt = s.rs1.slt s.rs2 := by
  rw [brLt, brLtu, ← show s.rs1.msb = s.rs1.getLsbD 63 from BitVec.msb_eq_getLsbD_last _,
    ← show s.rs2.msb = s.rs2.getLsbD 63 from BitVec.msb_eq_getLsbD_last _]
  by_cases h : s.rs1.msb = s.rs2.msb
  · rw [BitVec.slt_eq_ult_of_msb_eq h, h]
    cases s.rs2.msb <;> simp
  · rw [BitVec.slt_eq_not_ult_of_msb_neq h, BitVec.ult_eq_msb_of_msb_neq h]
    cases h1 : s.rs1.msb <;> cases h2 : s.rs2.msb <;> simp_all

/-- For an address whose upper bits agree the sign is the right one. -/
theorem vaSign_eq {a0 ea : BitVec 64} (h : goodVAddr (ea.setWidth 44) = true) :
    vaSign a0 ea = ea.getLsbD 43 := by
  have hbits : ea.getLsbD 43 = ea.getLsbD 42 := by
    simpa [goodVAddr, vaddrBits] using h
  have he : ea.extractLsb' 42 2 = BitVec.fill 2 (ea.getLsbD 43) := by
    apply BitVec.eq_of_getLsbD_eq
    intro i hi
    rw [BitVec.getLsbD_extractLsb', BitVec.getLsbD_fill]
    interval_cases i <;> simp_all
  rw [vaSign, vaddrBits]
  simp only [he]
  cases ea.getLsbD 43 <;> split_ifs <;> rfl

theorem bjAddr_eq (h : goodVAddr (s.bj64.setWidth 44) = true) : s.bjAddr = s.bj64.setWidth 44 := by
  rw [bjAddr, vaSign_eq h]
  apply BitVec.eq_of_getLsbD_eq
  intro i hi
  rw [BitVec.getLsbD_append, BitVec.getLsbD_setWidth, BitVec.getLsbD_setWidth]
  by_cases h43 : i < 43
  · simp [h43, hi]
  · obtain rfl : i = 43 := by omega
    simp

theorem brType_of_isJalr {inst : BitVec 32} (h : isJalr inst = true) :
    brType inst = none ∧ isJal inst = false := by
  rw [isJalr, Bool.and_eq_true, decide_eq_true_eq] at h
  rw [brType, isJal, h.1]
  exact ⟨rfl, rfl⟩

theorem brType_of_isJal {inst : BitVec 32} (h : isJal inst = true) :
    brType inst = none ∧ isJalr inst = false := by
  rw [isJal, decide_eq_true_eq] at h
  rw [brType, isJalr, h]
  exact ⟨rfl, rfl⟩

theorem pcSel_eq : s.pcSel = if takes s.uop.inst s.rs1 s.rs2 then
    if isJalr s.uop.inst then .jalr else .brjmp else .plus4 := by
  rw [pcSel, takes]
  cases hjalr : isJalr s.uop.inst with
  | true =>
    obtain ⟨hbr, hjal⟩ := brType_of_isJalr hjalr
    simp [hbr, hjal]
  | false =>
    rcases brType s.uop.inst with _ | t
    · simp
    · cases t <;> simp [Inst.BrType.holds, brEq, brLtu, brLt_eq]
      rfl

theorem taken_eq (h : isBrOrJmp s.uop.inst = true) :
    s.taken = takes s.uop.inst s.rs1 s.rs2 := by
  rw [taken, h, pcSel_eq]
  split_ifs with htakes hjalr <;> simp [htakes]

end BranchUnit

/-! ### Addresses without the lowest bit -/

theorem discardLsb_eq_self {a : VAddr} (h : a.toNat % 2 = 0) : discardLsb a = a := by
  apply BitVec.eq_of_toNat_eq
  rw [discardLsb_toNat]
  omega

theorem goodVAddr_discardLsb (a : VAddr) : goodVAddr (discardLsb a) = goodVAddr a := by
  rw [Bool.eq_iff_iff, goodVAddr_iff, goodVAddr_iff, discardLsb_toNat]
  omega

theorem Inst.offset_even (inst : BitVec 32) : (offset inst 44).toNat % 2 = 0 := by
  have hbit : (offset inst 44).getLsbD 0 = false := by
    rw [offset]
    split
    · rw [BitVec.getLsbD_signExtend, immJ_even]
      rfl
    · rw [BitVec.getLsbD_signExtend, immB_even]
      rfl
  rw [BitVec.getLsbD, Nat.testBit_zero, decide_eq_false_iff_not] at hbit
  omega

variable {pc : VAddr} {inst : BitVec 32} {rs1 rs2 : BitVec 64}

theorem discardLsb_ownTarget (h : wordAddr pc = pc) :
    discardLsb (ownTarget pc inst) = ownTarget pc inst := by
  have hpc := wordAddr_toNat pc
  rw [h] at hpc
  have hoff := offset_even inst
  refine discardLsb_eq_self ?_
  rw [ownTarget, BitVec.toNat_add]
  omega

theorem discardLsb_add_four (h : wordAddr pc = pc) : discardLsb (pc + 4) = pc + 4 := by
  have hpc := wordAddr_toNat pc
  rw [h] at hpc
  refine discardLsb_eq_self ?_
  rw [BitVec.toNat_add, show (4 : VAddr).toNat = 4 from rfl]
  omega

theorem discardLsb_setWidth (a : BitVec 64) :
    (a &&& ~~~1#64).setWidth 44 = discardLsb (a.setWidth 44) := by
  rw [discardLsb, BitVec.setWidth_and]
  rfl

theorem archNext_setWidth : (archNext (pc.signExtend 64) inst rs1 rs2).setWidth 44 =
    if takes inst rs1 rs2 then
      if isJalr inst then discardLsb ((rs1 + (Inst.immI inst).signExtend 64).setWidth 44)
      else ownTarget pc inst
    else pc + 4 := by
  have hpc : (pc.signExtend 64).setWidth 44 = pc := by
    rw [setWidth_signExtend _ (by decide), BitVec.signExtend_eq]
  rw [archNext]
  split_ifs
  · exact discardLsb_setWidth _
  · rw [BitVec.setWidth_add _ _ (by decide), hpc, ownTarget, offset, offset]
    split_ifs <;> rw [setWidth_signExtend _ (by decide)]
  · rw [BitVec.setWidth_add _ _ (by decide), hpc]
    rfl

/-! ### What a recorded prediction names -/

namespace Fetched

variable {f : Fetched}

theorem Ok.pc_setWidth (hok : f.Ok) (hma : f.xcptMa = false) :
    f.pc = f.addr.setWidth 64 ∧ f.pc.setWidth 44 = f.addr := by
  have hpc : f.pc = f.addr.setWidth 64 := by rw [hok.pc, hok.aligned hma]
  refine ⟨hpc, ?_⟩
  rw [hpc]
  simp

/-- A direct branch or jump that is predicted is predicted to go where it goes. -/
theorem Ok.next_of_predicted (hok : f.Ok) (hma : f.xcptMa = false)
    (hdirect : (Inst.isBr f.inst || isJal f.inst) = true)
    (hpred : (f.btbPredTaken || f.brTaken || isJal f.inst) = true) :
    f.next = ownTarget f.addr f.inst := by
  have hpc := (hok.pc_setWidth hma).2
  rw [next, hpc]
  cases hb : f.btbPredTaken with
  | true =>
    rw [if_pos rfl, hok.own hb hdirect, hpc, discardLsb_ownTarget (hok.aligned hma)]
  | false =>
    rw [hb, Bool.false_or] at hpred
    rw [if_neg (by simp), if_pos hpred, discardLsb_ownTarget (hok.aligned hma)]

theorem Ok.next_of_not_predicted (hok : f.Ok) (hma : f.xcptMa = false)
    (hpred : (f.btbPredTaken || f.brTaken || isJal f.inst) = false) :
    f.next = f.addr + 4 := by
  rw [Bool.or_assoc, Bool.or_eq_false_iff] at hpred
  rw [next, hpred.1, hpred.2, (hok.pc_setWidth hma).2]
  exact discardLsb_add_four (hok.aligned hma)

end Fetched

namespace BranchUnit

variable {s : BranchUnit}

theorem bj64_setWidth (hpc : s.currPc = pc.setWidth 64) : s.bj64.setWidth 44 =
    if isJalr s.uop.inst then (s.rs1 + (Inst.immI s.uop.inst).signExtend 64).setWidth 44
    else ownTarget pc s.uop.inst := by
  have hzero : (pc.setWidth 64).setWidth 44 = pc := by simp
  rw [bj64, bjBase, bjOffset_eq]
  cases hjalr : isJalr s.uop.inst with
  | true =>
    rw [if_pos rfl, if_neg (by rw [(brType_of_isJalr hjalr).2]; nofun), if_pos rfl, if_pos rfl,
      signExtend_signExtend _ (by decide)]
  | false =>
    simp only [if_neg Bool.false_ne_true]
    rw [hpc, BitVec.setWidth_add _ _ (by decide), hzero, setWidth_signExtend _ (by decide),
      ownTarget, offset]
    split_ifs
    · rfl
    · rw [signExtend_signExtend _ (by decide)]

/-! ### What it says is right -/

/-- The target of a taken branch or jump, if it is an address. -/
theorem bjAddr_of_takes (hpc : s.currPc = pc.setWidth 64)
    (htakes : takes s.uop.inst s.rs1 s.rs2 = true)
    (hcanon : Canonical (archNext (pc.signExtend 64) s.uop.inst s.rs1 s.rs2)) :
    s.bjAddr =
      if isJalr s.uop.inst then (s.rs1 + (Inst.immI s.uop.inst).signExtend 64).setWidth 44
      else ownTarget pc s.uop.inst := by
  have hbj := bj64_setWidth (s := s) hpc
  have hgood := hcanon.2
  rw [archNext_setWidth, htakes, if_pos rfl] at hgood
  rw [bjAddr_eq, hbj]
  rw [hbj]
  split_ifs at hgood ⊢
  · rwa [goodVAddr_discardLsb] at hgood
  · exact hgood

/-- **The address is the successor.** -/
theorem redirect_eq (hpc : s.currPc = pc.setWidth 64) (hword : wordAddr pc = pc)
    (hcanon : Canonical (archNext (pc.signExtend 64) s.uop.inst s.rs1 s.rs2)) :
    discardLsb s.redirect = (archNext (pc.signExtend 64) s.uop.inst s.rs1 s.rs2).setWidth 44 := by
  rw [archNext_setWidth, redirect, pcSel_eq]
  cases htakes : takes s.uop.inst s.rs1 s.rs2 with
  | false =>
    have hplus : s.pcPlus4.setWidth 44 = pc + 4 := by
      rw [pcPlus4, hpc, BitVec.setWidth_add _ _ (by decide)]
      simp
    simp only [if_neg Bool.false_ne_true]
    rw [hplus, discardLsb_add_four hword]
  | true =>
    have hbj := bjAddr_of_takes hpc htakes hcanon
    cases hjalr : isJalr s.uop.inst with
    | true =>
      rw [hjalr, if_pos rfl] at hbj
      simp only [if_true]
      rw [hbj]
    | false =>
      rw [hjalr, if_neg Bool.false_ne_true] at hbj
      simp only [if_true, if_neg Bool.false_ne_true]
      rw [hbj, discardLsb_ownTarget hword]

/-- **A branch that was predicted is not called mispredicted.** -/
theorem not_mispredict (hbr : Inst.isBr s.uop.inst = true)
    (hright : (s.uop.btbPredTaken || s.uop.brTaken) = takes s.uop.inst s.rs1 s.rs2)
    (hone : s.uop.brTaken = true → s.uop.btbPredTaken = false) : s.mispredict = false := by
  have hctl : isBrOrJmp s.uop.inst = true := by rw [isBrOrJmp, hbr]; rfl
  have hjalr : isJalr s.uop.inst = false := by
    rw [← Bool.not_eq_true]
    intro h
    rw [Inst.isBr, (brType_of_isJalr h).1] at hbr
    cases hbr
  rw [mispredict, taken_eq hctl, pcSel_eq, hjalr, ← hright]
  cases hb : s.uop.btbPredTaken <;> cases ht : s.uop.brTaken <;> simp_all

/-- What the unit is right about without a misprediction, by the kind of the instruction. -/
theorem predicted_eq_takes (hctl : isBrOrJmp s.uop.inst = true)
    (hjal : isJal s.uop.inst = false) (hone : s.uop.brTaken = true → s.uop.btbPredTaken = false)
    (hmis : s.mispredict = false) :
    (s.uop.btbPredTaken || s.uop.brTaken) = takes s.uop.inst s.rs1 s.rs2 := by
  rw [mispredict, taken_eq hctl, hctl, hjal] at hmis
  cases hb : s.uop.btbPredTaken <;> cases ht : s.uop.brTaken <;>
    cases hk : takes s.uop.inst s.rs1 s.rs2 <;> simp_all

/-- **Without a misprediction the successor was fetched.** The address the recorded prediction names
is the successor. For a jump through a register this takes the row behind it in the reorder buffer,
and that the target buffer's target is a word's. -/
theorem next_eq_of_not_mispredict (hok : s.uop.Ok) (hma : s.uop.xcptMa = false)
    (hctl : isBrOrJmp s.uop.inst = true) (hpc : s.currPc = s.uop.pc)
    (hrow : s.uop.btbPredTaken = true → s.nextVal = true →
      s.nextPc = (wordAddr s.uop.next).setWidth 64)
    (hword : isJalr s.uop.inst = true → s.uop.btbPredTaken = true →
      wordAddr s.uop.next = s.uop.next)
    (hcanon : Canonical (archNext (s.uop.addr.signExtend 64) s.uop.inst s.rs1 s.rs2))
    (hmis : s.mispredict = false) :
    s.uop.next = (archNext (s.uop.addr.signExtend 64) s.uop.inst s.rs1 s.rs2).setWidth 44 := by
  obtain ⟨hpc64, -⟩ := hok.pc_setWidth hma
  rw [hpc64] at hpc
  rw [archNext_setWidth]
  cases hjal : isJal s.uop.inst with
  | true =>
    have hbr : brType s.uop.inst = none := by
      rw [← Option.not_isSome_iff_eq_none]
      intro h
      rw [isJal_of_isBr _ h] at hjal
      cases hjal
    have hjalr : isJalr s.uop.inst = false := by
      rw [← Bool.not_eq_true]
      intro h
      rw [(brType_of_isJalr h).2] at hjal
      cases hjal
    rw [hok.next_of_predicted hma (by rw [hjal, Bool.or_true]) (by rw [hjal, Bool.or_true]),
      takes, hbr, hjal, hjalr]
    rfl
  | false =>
    have heq := predicted_eq_takes hctl hjal (fun h => (hok.br h).2) hmis
    cases hjalr : isJalr s.uop.inst with
    | true =>
      -- the row behind the jump holds the word the jump goes to
      have htakes : takes s.uop.inst s.rs1 s.rs2 = true := by
        rw [takes, (brType_of_isJalr hjalr).1, hjalr, Bool.or_true]
      have hbtb : s.uop.btbPredTaken = true := by
        rw [htakes, Bool.or_eq_true] at heq
        refine heq.resolve_right fun h => ?_
        have hbr := (hok.br h).1
        rw [Inst.isBr, (brType_of_isJalr hjalr).1] at hbr
        cases hbr
      have hbj := bjAddr_of_takes hpc htakes hcanon
      rw [hjalr, if_pos rfl] at hbj
      have hsame : s.nextVal = true ∧ s.nextPc = s.bjAddr.setWidth 64 := by
        rw [mispredict, taken_eq hctl, hctl, hjal, hbtb, htakes, pcSel_eq, htakes, hjalr] at hmis
        simpa using hmis
      have hnext : s.uop.next = s.bjAddr := by
        have h := (hrow hbtb hsame.1).symm.trans hsame.2
        rw [hword hjalr hbtb] at h
        have h' := congrArg (BitVec.setWidth 44) h
        simpa using h'
      have heven : discardLsb s.bjAddr = s.bjAddr := by
        have h := hword hjalr hbtb
        rw [hnext] at h
        have hnat := wordAddr_toNat s.bjAddr
        rw [h] at hnat
        exact discardLsb_eq_self (by omega)
      rw [htakes, if_pos rfl, if_pos rfl, ← hbj, heven, hnext]
    | false =>
      have hbr : Inst.isBr s.uop.inst = true := by
        rw [isBrOrJmp, hjal, hjalr] at hctl
        simpa using hctl
      cases htakes : takes s.uop.inst s.rs1 s.rs2 with
      | true =>
        rw [htakes] at heq
        rw [hok.next_of_predicted hma (by rw [hbr]; rfl) (by rw [heq]; rfl)]
        rfl
      | false =>
        rw [htakes] at heq
        rw [hok.next_of_not_predicted hma (by rw [heq, hjal]; rfl)]
        rfl

end BranchUnit

end RiscvSoc
