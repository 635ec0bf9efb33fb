import RiscvSoc.Hwacha.Issue

/-!
# What is issued gets to all units, or to none

The handshake of the issue stage is sound: whatever is ready and whatever is not, a command or an
instruction is taken in the cycle in which everything that has a part in it gets its part. The parts
themselves do not fit together. An operation that writes the register zero is not given to the
sequencer, but if it is a load or an atomic it is given to the deck and to the memory unit, which
then wait for elements that nobody sends. And the atomic is not performed.
-/

namespace RiscvSoc

namespace Hwacha

/-! ### The tables -/

/-- A line without a functional unit has no destination, and only loads and stores are for the
memory unit. -/
def TVECRow.plain (r : TVECRow) : Bool :=
  match r.unit with
  | .none _ _ _ => r.vd == .R_
  | .viu _ _ _ => true
  | .vmu _ op => op == VMUFn.VM_VLD || op == VMUFn.VM_VST

theorem TVECRow.plain_find (cmd : BitVec 8) : (find cmd).plain = true := by
  have htable : ∀ r ∈ table, r.2.plain = true := by decide
  rw [find]
  cases hrow : table.lookup cmd with
  | none => rfl
  | some r =>
    obtain ⟨l₁, l₂, hl, -⟩ := List.lookup_eq_some_iff.mp hrow
    exact htable (cmd, r) (hl ▸ List.mem_append_right _ List.mem_cons_self)

/-- Only loads, stores and atomics are for the memory unit. -/
def VTRow.plain (r : VTRow) : Bool :=
  match r.unit with
  | .vmu _ op => VMUFn.isAMO (op.setWidth 5) || op == VMUFn.VM_ULD || op == VMUFn.VM_UST
  | _ => true

theorem VTRow.plain_find (inst : BitVec 32) : (find inst).plain = true := by
  have htable : ∀ r ∈ table, r.2.plain = true := by decide +kernel
  rw [find]
  cases hrow : table.find? fun r => r.1.matches inst with
  | none => rfl
  | some r => exact htable r (List.mem_of_find?_eq_some hrow)

theorem TVECCtrl.decode_cases (x : BitVec 8 → TVECDontCares) (cmd : BitVec 8) :
    ((decode x cmd).vmuVal = true → (decode x cmd).viuFimmVal = false ∧
      ((decode x cmd).vmuOp == VMUFn.VM_VLD || (decode x cmd).vmuOp == VMUFn.VM_VST) = true) ∧
    ((decode x cmd).decodeVf = true → (decode x cmd).vd.val = false) := by
  have hplain := TVECRow.plain_find cmd
  rw [decode]
  generalize TVECRow.find cmd = r at hplain
  obtain ⟨vd, vt, unit, imm1, imm2, cnt⟩ := r
  cases unit with
  | none vcfg vsetvl vf =>
    obtain rfl : vd = .R_ := eq_of_beq hplain
    exact ⟨fun h => Bool.noConfusion h, fun _ => rfl⟩
  | viu t0 t1 fimm =>
    cases fimm <;> exact ⟨fun h => Bool.noConfusion h, fun h => Bool.noConfusion h⟩
  | vmu typ op => exact ⟨fun _ => ⟨rfl, hplain⟩, fun h => Bool.noConfusion h⟩

theorem VTCtrl.decode_vmuVal (y : BitVec 32 → VTDontCares) (inst : BitVec 32)
    (h : (decode y inst).vmuVal = true) :
    (VMUFn.isAMO ((decode y inst).vmuOp.setWidth 5) || (decode y inst).vmuOp == VMUFn.VM_ULD ||
      (decode y inst).vmuOp == VMUFn.VM_UST) = true := by
  have hplain := VTRow.plain_find inst
  rw [decode] at h ⊢
  generalize VTRow.find inst = r at h hplain
  obtain ⟨vd, vs, vt, vr, imm, unit⟩ := r
  cases unit with
  | vmu typ op => exact hplain
  | none => exact Bool.noConfusion h
  | viu t0 t1 dw fp op => exact Bool.noConfusion h
  | vau0 dw op => exact Bool.noConfusion h
  | vau1 fp op => exact Bool.noConfusion h
  | vau2 fp op => exact Bool.noConfusion h
  | stop => exact Bool.noConfusion h

/-! ### The handshake -/

namespace Issue

variable {x : BitVec 8 → TVECDontCares} {y : BitVec 32 → VTDontCares} {s : Issue} {i : IssueIn}

theorem IssueTVEC.valid_and_ready {s : IssueTVEC} (u : IssueUnit) (hu : u ≠ .numcnt) :
    (s.valid x i u && unitReady i i.tvecReady u) = (s.fire x i none && enq x i u) := by
  have hmem : .unit u ∈ guards := by cases u <;> first | decide | exact absurd rfl hu
  have hparty : (Handshake.fire guards (ok x i) (some (.unit u)) && enq x i u &&
      unitReady i i.tvecReady u) = (Handshake.fire guards (ok x i) none && enq x i u) :=
    Handshake.fire_party hmem rfl
  rw [valid, fire, fire, Bool.and_assoc, Bool.and_assoc, ← Bool.and_assoc (Handshake.fire _ _ _),
    hparty, Bool.and_assoc (!i.stall && s.active)]

theorem IssueVT.valid_and_ready {s : IssueVT} {t : IssueTVEC} (u : IssueUnit) :
    (s.valid y t i u && unitReady i i.vtReady u) = (s.fire y t i none && enq y i u) := by
  have hparty : ∀ u, .unit u ∈ guards → (s.fire y t i (some (.unit u)) && enq y i u &&
      unitReady i i.vtReady u) = (s.fire y t i none && enq y i u) := by
    intro u hmem
    have hparty : (Handshake.fire guards (ok y i) (some (.unit u)) && enq y i u &&
        unitReady i i.vtReady u) = (Handshake.fire guards (ok y i) none && enq y i u) :=
      Handshake.fire_party hmem rfl
    rw [fire, fire, Bool.and_assoc, Bool.and_assoc, ← Bool.and_assoc (Handshake.fire _ _ _),
      hparty, Bool.and_assoc (!s.stall y t i && active t)]
  cases u with
  | seq => exact hparty _ (by decide)
  | deck => exact hparty _ (by decide)
  | cmdq => exact hparty _ (by decide)
  | cntb => exact hparty _ (by decide)
  | numcnt => rw [valid, unitReady, Bool.and_true]
  | addrq => simp [valid, enq]
  | cmdb => simp [valid, enq]
  | imm1b => simp [valid, enq]
  | imm2b => simp [valid, enq]
  | numcntb => simp [valid, enq]

theorem IssueVT.active_eq (s : Issue) : IssueVT.active s.tvec = !s.active := by
  rw [IssueVT.active, Issue.active, IssueTVEC.active]
  cases s.tvec.state <;> rfl

/-- Nothing happens while the other half of the stage is active. -/
theorem IssueTVEC.fire_of_not_active (h : s.active = false) (g : Option IssueGuard) :
    s.tvec.fire x i g = false := by
  rw [IssueTVEC.fire, show s.tvec.active = false from h, Bool.and_false, Bool.false_and]

theorem IssueVT.fire_of_active (h : s.active = true) (g : Option IssueGuard) :
    s.vt.fire y s.tvec i g = false := by
  rw [IssueVT.fire, IssueVT.active_eq, h, Bool.not_true, Bool.and_false, Bool.false_and]

theorem taken_eq : s.taken x y i =
    if s.active then s.tvec.fire x i none else s.vt.fire y s.tvec i none := by
  have hcmd : (s.tvec.cmdReady x i && i.cmd.valid) = s.tvec.fire x i none := by
    rw [IssueTVEC.cmdReady, IssueTVEC.fire, Bool.and_assoc,
      show i.cmd.valid = IssueTVEC.ok x i .item from rfl, Handshake.fire_some (by decide)]
    rfl
  have hresp : (s.vt.respReady y s.tvec i && i.resp.valid) = s.vt.fire y s.tvec i none := by
    rw [IssueVT.respReady, IssueVT.fire, Bool.and_assoc,
      show i.resp.valid = IssueVT.ok y i .item from rfl, Handshake.fire_some (by decide)]
    rfl
  rw [taken, hcmd, hresp]
  cases h : s.active with
  | true => rw [IssueVT.fire_of_active h, Bool.or_false, if_pos rfl]
  | false => rw [IssueTVEC.fire_of_not_active h, Bool.false_or, if_neg (by simp)]

variable (x y s i) in
/-- What is at hand has a part for the unit. -/
def enq (u : IssueUnit) : Bool := if s.active then IssueTVEC.enq x i u else IssueVT.enq y i u

/-- **The handshake.** Every unit gets its part in the cycle in which the item is taken. -/
theorem delivered_eq (u : IssueUnit) :
    s.delivered x y i u = (s.taken x y i && s.enq x y i u) := by
  rw [taken_eq, enq, delivered, ready]
  cases h : s.active with
  | true =>
    have hvt : s.vt.valid y s.tvec i .numcnt = false := by
      rw [IssueVT.valid, IssueVT.fire_of_active h, Bool.false_and]
    rw [if_pos rfl, if_pos rfl, if_pos rfl]
    cases u with
    | numcnt => rw [valid, hvt, IssueTVEC.enq, Bool.false_and, Bool.and_false]
    | _ =>
      rw [← IssueTVEC.valid_and_ready _ (by decide)]
      simp only [valid, h, if_true]
  | false =>
    have htvec : ∀ u, s.tvec.valid x i u = false := by
      intro u
      rw [IssueTVEC.valid, IssueTVEC.fire_of_not_active h, Bool.false_and]
    rw [if_neg (by simp), if_neg (by simp), if_neg (by simp)]
    cases u with
    | addrq | cmdb | imm1b | imm2b | numcntb =>
      simp only [valid, htvec, IssueVT.enq, Bool.false_and, Bool.and_false]
    | _ =>
      rw [← IssueVT.valid_and_ready]
      simp [valid, h]

/-! ### The operation at hand -/

theorem enq_seq : s.enq x y i .seq = (s.involves x y i .seq && !s.vdZero x y i) := by
  simp only [enq, involves, vdZero]
  cases s.active with
  | true => exact Bool.and_comm ..
  | false => exact Bool.and_comm ..

theorem enq_deck : s.enq x y i .deck = s.isMem x y i := rfl

theorem enq_cmdq : s.enq x y i .cmdq = s.isMem x y i := rfl

/-- A unit has a part exactly if it is needed, unless the destination is the register zero. -/
theorem enq_eq_involves (h : s.vdZero x y i = false) (u : IssueUnit) :
    s.enq x y i u = s.involves x y i u := by
  rw [vdZero] at h
  simp only [enq, involves]
  cases hact : s.active with
  | true =>
    rw [hact, if_pos rfl] at h
    cases u <;> simp [IssueTVEC.enq, IssueTVEC.issueOp, h]
  | false =>
    rw [hact, if_neg (by simp)] at h
    cases u <;> simp [IssueVT.enq, IssueVT.issueOp, h]

/-- No unit has a part in an operation on registers whose destination is the register zero. -/
theorem enq_of_vdZero (h : s.vdZero x y i = true) (hmem : s.isMem x y i = false) (u : IssueUnit) :
    s.enq x y i u = false := by
  rw [vdZero] at h
  rw [isMem] at hmem
  rw [enq]
  cases hact : s.active with
  | true =>
    rw [hact, if_pos rfl] at h hmem
    have hval : (IssueTVEC.ctrl x i).vd.val = true := (Bool.and_eq_true_iff.mp h).2
    have hvf : (IssueTVEC.ctrl x i).decodeVf = false := by
      by_contra hvf
      rw [IssueTVEC.ctrl,
        (TVECCtrl.decode_cases x _).2 (Bool.eq_true_of_not_eq_false hvf)] at hval
      exact Bool.noConfusion hval
    cases u <;> simp [IssueTVEC.enq, IssueTVEC.issueOp, h, hmem, hvf]
  | false =>
    rw [hact, if_neg (by simp)] at h hmem
    cases u <;> simp [IssueVT.enq, IssueVT.issueOp, h, hmem]

/-- **All or nothing** holds in a cycle exactly if it does not take a memory operation that writes
the register zero. -/
theorem allOrNothing_iff : s.AllOrNothing x y i ↔ ¬s.LosesMem x y i := by
  rw [AllOrNothing, LosesMem]
  simp only [delivered_eq]
  cases htaken : s.taken x y i with
  | false => simp
  | true =>
    simp only [Bool.true_and, true_and, forall_const]
    cases hzero : s.vdZero x y i with
    | false => simpa using fun u => enq_eq_involves hzero u
    | true =>
      cases hmem : s.isMem x y i with
      | false =>
        have hamo : (s.op x y i).active.amo = false := by
          rw [isMem] at hmem
          rw [op]
          cases hact : s.active with
          | true => rfl
          | false =>
            rw [hact, if_neg (by simp)] at hmem
            show ((IssueVT.ctrl y i).vmuVal && _) = false
            rw [hmem, Bool.false_and]
        simpa [hamo] using .inr fun u => enq_of_vdZero hzero hmem u
      | true =>
        have hvfu : s.involves x y i .seq = true := by
          rw [isMem] at hmem
          rw [involves]
          cases hact : s.active with
          | true =>
            rw [hact, if_pos rfl] at hmem
            show (_ || (IssueTVEC.ctrl x i).vmuVal) = true
            rw [hmem, Bool.or_true]
          | false =>
            rw [hact, if_neg (by simp)] at hmem
            show (_ || (IssueVT.ctrl y i).vmuVal) = true
            rw [hmem, Bool.or_true]
        simp only [not_true_eq_false, iff_false, and_self]
        rintro (hall | ⟨hnone, -⟩)
        · have hseq := hall .seq
          rw [enq_seq, hvfu, hzero] at hseq
          exact Bool.noConfusion hseq
        · exact Bool.noConfusion (hmem.symm.trans (hnone .deck))

/-! ### What the units see -/

theorem vdZero_op : (s.op x y i).vdZero = s.vdZero x y i := by
  rw [op, vdZero]
  cases s.active with
  | true => exact Bool.and_comm ..
  | false => exact Bool.and_comm ..

theorem mem_op : (s.op x y i).active.mem = s.isMem x y i := by
  rw [op, isMem]
  cases s.active with
  | true =>
    show (false || false || false || ((IssueTVEC.ctrl x i).vmuVal && _) ||
      ((IssueTVEC.ctrl x i).vmuVal && _)) = (IssueTVEC.ctrl x i).vmuVal
    cases h : (IssueTVEC.ctrl x i).vmuVal with
    | false => rfl
    | true => exact ((TVECCtrl.decode_cases x _).1 h).2
  | false =>
    show (((IssueVT.ctrl y i).vmuVal && _) || ((IssueVT.ctrl y i).vmuVal && _) ||
      ((IssueVT.ctrl y i).vmuVal && _) || false || false) = (IssueVT.ctrl y i).vmuVal
    rw [Bool.or_false, Bool.or_false]
    cases h : (IssueVT.ctrl y i).vmuVal with
    | false => rfl
    | true => exact VTCtrl.decode_vmuVal y _ h

theorem any_op : (s.op x y i).active.any = s.involves x y i .seq := by
  rw [Active.any, mem_op, isMem]
  simp only [op, involves]
  cases s.active with
  | true => simp [IssueTVEC.op, IssueTVEC.vfuVal]
  | false => rfl

theorem tvecMem_op : (s.op x y i).tvecMem = s.enq x y i .addrq := by
  rw [op, enq]
  cases s.active with
  | true =>
    show ((IssueTVEC.ctrl x i).vmuVal && _ || (IssueTVEC.ctrl x i).vmuVal && _) =
      (IssueTVEC.ctrl x i).vmuVal
    cases h : (IssueTVEC.ctrl x i).vmuVal with
    | false => rfl
    | true => exact ((TVECCtrl.decode_cases x _).1 h).2
  | false => rfl

theorem addressOp_op (h : s.enq x y i .addrq = true) :
    s.tvec.addressOp x i = (s.op x y i).addressOp := by
  rw [enq] at h
  rw [op, IssueTVEC.addressOp, IssueOp.addressOp]
  cases hact : s.active with
  | true =>
    rw [hact, if_pos rfl] at h
    have himm : (s.tvec.op x i).imm = i.imm1.bits.setWidth 66 := by
      show IssueTVEC.imm x i = _
      rw [IssueTVEC.imm, IssueTVEC.ctrl, ((TVECCtrl.decode_cases x _).1 h).1]
      rfl
    rw [if_pos rfl, himm, BitVec.setWidth_setWidth_of_le _ (by decide), BitVec.setWidth_eq]
  | false =>
    rw [hact, if_neg (by simp)] at h
    exact Bool.noConfusion h

theorem utidx_op : (s.op x y i).utidx = cnt i := by
  rw [op]
  cases s.active <;> rfl

end Issue

/-- The sequencer got the operations that write a register or the memory, among them every memory
operation that was taken. The deck and the memory unit got the memory operations of the sequencer,
in its order, the address queue those of whole vectors, and the counts of a restart are those of the
sequencer. -/
structure IssueLog.Delivers (g : IssueLog) : Prop where
  seq : g.seq = g.taken.filter fun op => op.active.any && !op.vdZero
  mem : g.seq.filter (·.active.mem) = g.taken.filter (·.active.mem)
  deck : g.deck = (g.seq.filter (·.active.mem)).map Issue.IssueOp.deckOp
  cmdq : g.cmdq = (g.seq.filter (·.active.mem)).map Issue.IssueOp.vmuOp
  addrq : g.addrq = (g.seq.filter (·.tvecMem)).map Issue.IssueOp.addressOp
  cntb : g.cntb = g.seq.map (·.utidx)

namespace Issue

variable {x : BitVec 8 → TVECDontCares} {y : BitVec 32 → VTDontCares} {s : Issue} {i : IssueIn}

theorem filter_append_ite {α : Type} (p : α → Bool) (l : List α) (b : Bool) (a : α) :
    (l ++ if b then [a] else []).filter p = l.filter p ++ if b && p a then [a] else [] := by
  rw [List.filter_append]
  congr 1
  cases b with
  | false => rfl
  | true => cases h : p a <;> simp [h]

theorem map_append_ite {α β : Type} (f : α → β) (l : List α) (b : Bool) (a : α) :
    (l ++ if b then [a] else []).map f = l.map f ++ if b then [f a] else [] := by
  rw [List.map_append]
  cases b <;> rfl

theorem delivers_step {g : IssueLog} (h : g.Delivers) (hok : ¬s.LosesMem x y i) :
    (s.note x y i g).Delivers := by
  have hmem : s.taken x y i = true → s.isMem x y i = true → s.vdZero x y i = false := fun ht hm =>
    Bool.eq_false_of_not_eq_true fun hz => hok ⟨ht, hm, hz⟩
  -- a memory operation that is taken goes to the sequencer
  have hseq : (s.delivered x y i .seq && s.isMem x y i) = (s.taken x y i && s.isMem x y i) := by
    rw [delivered_eq, enq_seq, ← any_op, Active.any, mem_op]
    cases ht : s.taken x y i with
    | false => rfl
    | true =>
      cases hm : s.isMem x y i with
      | false => simp
      | true => rw [hmem ht hm]; simp
  have htvec : s.enq x y i .addrq = true → s.isMem x y i = true := by
    intro henq
    rw [← mem_op, Active.mem, Bool.or_assoc]
    rw [← tvecMem_op, IssueOp.tvecMem] at henq
    rw [henq, Bool.or_true]
  refine ⟨?_, ?_, ?_, ?_, ?_, ?_⟩
  · show g.seq ++ _ = (g.taken ++ _).filter _
    rw [filter_append_ite, h.seq, delivered_eq, enq_seq, any_op, vdZero_op]
  · show (g.seq ++ _).filter _ = (g.taken ++ _).filter _
    rw [filter_append_ite, filter_append_ite, h.mem, mem_op, hseq]
  · show g.deck ++ _ = ((g.seq ++ _).filter _).map _
    rw [filter_append_ite, map_append_ite, ← h.deck, mem_op, hseq, delivered_eq, enq_deck]
  · show g.cmdq ++ _ = ((g.seq ++ _).filter _).map _
    rw [filter_append_ite, map_append_ite, ← h.cmdq, mem_op, hseq, delivered_eq, enq_cmdq]
  · show g.addrq ++ _ = ((g.seq ++ _).filter _).map _
    have hshown : (s.delivered x y i .seq && s.enq x y i .addrq) = s.delivered x y i .addrq := by
      rw [delivered_eq .addrq]
      cases henq : s.enq x y i .addrq with
      | false => rw [Bool.and_false, Bool.and_false]
      | true =>
        rw [htvec henq] at hseq
        exact hseq
    rw [filter_append_ite, map_append_ite, ← h.addrq, tvecMem_op, hshown]
    cases hdel : s.delivered x y i .addrq with
    | false => rfl
    | true =>
      rw [delivered_eq, Bool.and_eq_true] at hdel
      rw [addressOp_op hdel.2]
  · show g.cntb ++ _ = (g.seq ++ _).map _
    rw [map_append_ite, ← h.cntb, utidx_op, delivered_eq, delivered_eq]
    rfl

/-- A run that takes no memory operation that writes the register zero. -/
theorem reachable_delivers :
    ∀ z, ((machine x y).restrict fun z i => ¬z.1.LosesMem x y i).Reachable z →
    z.2.Delivers := by
  refine Machine.invariant ?_ ?_
  · rintro ⟨s, g⟩ ⟨-, rfl⟩
    exact ⟨rfl, rfl, rfl, rfl, rfl, rfl⟩
  · rintro ⟨s, g⟩ i ⟨s', g'⟩ - h ⟨hok, -, hg⟩
    obtain rfl : g' = s.note x y i g := hg
    exact delivers_step h hok

end Issue

/-- **Issue.** In every state and for every input, what is at hand is taken with all units that are
needed for it or no unit gets anything, unless it is a memory operation that writes the register
zero and is taken; then it is not so. And in every run in which that does not happen, the sequencer,
the deck and the memory unit get the same memory operations, and these are all that were taken. -/
theorem issue_delivers (x : BitVec 8 → TVECDontCares) (y : BitVec 32 → VTDontCares) :
    (∀ (s : Issue) (i : Issue.IssueIn), s.AllOrNothing x y i ↔ ¬s.LosesMem x y i) ∧
    ∀ z, ((Issue.machine x y).restrict fun z i => ¬z.1.LosesMem x y i).Reachable z →
      z.2.Delivers :=
  ⟨fun _ _ => Issue.allOrNothing_iff, Issue.reachable_delivers⟩

namespace Issue

/-! ### A short run -/

/-- Everything is ready, and nothing is there. -/
def idle : IssueIn where
  flush := false
  stall := false
  cmd := ⟨false, ⟨0, 0, 0⟩⟩
  imm1 := ⟨false, 0⟩
  imm2 := ⟨false, 0⟩
  cnt := ⟨false, 0⟩
  resp := ⟨false, ⟨0, 0, false, false⟩⟩
  tvecReady := true
  vtReady := true
  deckReady := true
  cmdqReady := true
  addrqReady := true
  cmdbReady := true
  imm1bReady := true
  imm2bReady := true
  cntbReady := true
  numcntbReady := true
  rtagImm1 := 0
  rtagCnt := 0
  rtagNumcnt := 0

/-- `vld`, into the first register. -/
def loadVector : IssueIn := { idle with cmd := ⟨true, ⟨0b10000011, 1, 0⟩⟩, imm1 := ⟨true, 0x1000⟩ }

/-- `vf`. -/
def vectorFetch : IssueIn := { idle with cmd := ⟨true, ⟨0b00000011, 0, 0⟩⟩, imm1 := ⟨true, 0x2000⟩ }

/-- `amoadd.w x0, x2, 0(x1)`. -/
def atomicToZero : IssueIn := { idle with resp := ⟨true, ⟨0x2000, 0x0020a02f, false, false⟩⟩ }

/-- Don't-cares are zero. -/
def tvecZeros : BitVec 8 → TVECDontCares := fun _ => ⟨false, false, 0, 0, 0⟩

def vtZeros : BitVec 32 → VTDontCares := fun _ =>
  ⟨false, false, false, false, 0, 0, 0, 0, ⟨0, 0⟩, ⟨0, 0⟩, ⟨0, 0⟩, 0, 0⟩

def start : Issue × IssueLog := (⟨.reset, .reset⟩, ⟨[], [], [], [], [], []⟩)

theorem issue_delivers_load : (Machine.cycles (next tvecZeros vtZeros) (note tvecZeros vtZeros)
    [loadVector] start).2.Delivers := by
  have hstart : ((machine tvecZeros vtZeros).restrict fun z i =>
      ¬z.1.LosesMem tvecZeros vtZeros i).Reachable start := .init ⟨rfl, rfl⟩
  refine (issue_delivers tvecZeros vtZeros).2 _
    (Machine.reachable_restrict_cycles hstart [loadVector] ⟨?_, trivial⟩)
  rintro ⟨-, -, hzero⟩
  exact absurd hzero (by decide)

/-- **An atomic that is not performed.** Its destination is the register zero: the deck and the
memory unit get it, and the sequencer does not. -/
theorem issue_loses_atomic : ¬∀ (x : BitVec 8 → TVECDontCares) (y : BitVec 32 → VTDontCares)
    (z : Issue × IssueLog), (machine x y).Reachable z → ∀ i, z.1.AllOrNothing x y i := by
  intro h
  have hstart : (machine tvecZeros vtZeros).Reachable start := .init ⟨rfl, rfl⟩
  have hall := h _ _ _ (Machine.reachable_cycles hstart [vectorFetch]) atomicToZero
  refine allOrNothing_iff.mp hall ⟨?_, ?_, ?_⟩ <;> decide

end Issue

end Hwacha

end RiscvSoc
