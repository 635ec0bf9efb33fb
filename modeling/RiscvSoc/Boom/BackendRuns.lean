import RiscvSoc.Boom.BackendOperands

/-!
# Runs of the back end

Every micro-op that is issued uses the results of the last writers of its operands, and no result is
lost. The ALU and memory never have to wait for a write port. The multiplier shares one, and offers
its result until it gets it.
-/

namespace RiscvSoc

variable {c : BOOMConf} {N W : ℕ} [NeZero W]

namespace Backend

variable {conf : BackendConf c W} {s : Backend c N W} {i : BackendInput c W}
  {h : BackendLog c N W}

/-! ### No result is lost -/

namespace HistoryOk

variable {g : Stage N W} {u : ExeUop c} {r : ExeResp c}

section

variable (hh : HistoryOk conf s h)
include hh

theorem slot_moves_on {k : Fin N} (hu : s.At (.slot k) u) (hdrop : s.drops u = false) :
    ∃ g', (s.next conf i).At g' (u.resolve s.front.core.brinfo) := by
  obtain ⟨hvalid, rfl⟩ := hu
  by_cases hissued : ∃ w, s.iss conf i w = some k
  · obtain ⟨w, hk⟩ := hissued
    exact ⟨.exe w, _, exeReg_next.mpr ⟨k, hk, hdrop, rfl⟩, rfl⟩
  · have hissue : (s.front.issue.selection conf.hp
        (s.front.issueInput (s.input conf i))).issue k = false := by
      rw [← Bool.not_eq_true, IssueUnit.selection_satisfies.issue_iff]
      exact hissued
    have hwriter : s.front.issue.writer (s.front.issueInput (s.input conf i)) k = none := by
      cases hwriter : s.front.issue.writer (s.front.issueInput (s.input conf i)) k with
      | none => rfl
      | some x =>
        have hfree := IssueUnit.free_of_writes (IssueUnit.writer_eq_some.mp hwriter)
        rw [hvalid] at hfree
        cases hfree
    have hkilled : s.front.issue.killed (s.front.issueInput (s.input conf i)) k = false := hdrop
    refine ⟨.slot k, ?_,
      slotUop_next (hh.places.lt (.slot k) _ ⟨hvalid, rfl⟩) hwriter hkilled hissue⟩
    refine (IssueUnit.next_of_not_writes hwriter).trans ?_
    rw [hvalid, hkilled, hissue]
    rfl

theorem exe_moves_on {w : Fin W} (hu : s.At (.exe w) u) (hdst : u.kind.hasDst = true)
    (hdrop : s.drops u = false) :
    ∃ g', (s.next conf i).At g' (u.resolve s.front.core.brinfo) := by
  have hsuits := hh.places.suits _ _ hu
  have hcode := (hh.places.row _ _ hu).fuCode (ne_nop_of_dst hdst)
  obtain ⟨r, hr, rfl⟩ := hu
  rw [Suits, hcode] at hsuits
  have halu (hk : (conf.kinds w).hasAlu = true) (hfu : r.uop.fuCode = FU_ALU ∨
      r.uop.fuCode = FU_BRU ∨ r.uop.fuCode = FU_PCR ∨ r.uop.fuCode = FU_CNTR) :
      ∃ g', (s.next conf i).At g' (r.uop.resolve s.front.core.brinfo) :=
    ⟨.alu w, _, ExeUnit.alu_next.mpr ⟨r, ExeUnitKind.aluReq_of_code hr hfu hk, hdrop, rfl, rfl⟩⟩
  cases hkind : r.uop.kind with
  | alu =>
    rw [hkind] at hsuits hcode
    exact halu (ExeUnitKind.of_codes_alu hsuits) (.inl hcode)
  | link =>
    rw [hkind] at hsuits hcode
    exact halu (ExeUnitKind.of_codes_bru hsuits).1 (.inr (.inl hcode))
  | csr =>
    rw [hkind] at hsuits hcode
    exact halu (ExeUnitKind.of_codes_pcr hsuits).1 (.inr (.inr (.inl hcode)))
  | mulDiv =>
    rw [hkind] at hsuits hcode
    have hreq := ExeUnitKind.mulDivReq_of_code hr hcode (ExeUnitKind.of_codes_muld hsuits).1
    have hfire : (s.units w).mulDivFire (conf.kinds w) (s.unitInput i w) = some r :=
      ExeUnit.mulDivFire_eq_some.mpr ⟨hh.places.free w r hreq, hreq⟩
    exact ⟨.mulDiv w, ExeUnit.mulDiv_starts hfire hdrop⟩
  | load =>
    rw [hkind] at hsuits
    have hreq : (conf.kinds w).memReq (s.exeReg w) = some r :=
      (if_pos (ExeUnitKind.of_codes_mem hsuits)).trans hr
    have hload := ExeUnit.newLoad_eq_some (i := s.unitInput i w).mpr ⟨r, hreq, rfl, hkind⟩
    exact ⟨.load w, ExeUnit.mem_loads_next.mpr ⟨r.uop, .inr hload, hdrop, rfl⟩⟩
  | branch | sta | std | nop =>
    rw [hkind] at hdst
    cases hdst

/-- **No result is lost.** What is not dropped moves on, or is answered. -/
theorem moves_on (hu : s.At g u) (hdst : u.kind.hasDst = true) (hdrop : s.drops u = false) :
    (∃ g', (s.next conf i).At g' (u.resolve s.front.core.brinfo)) ∨
      ∃ r, Answers conf s i g u r := by
  cases g with
  | slot k => exact .inl (hh.slot_moves_on hu hdrop)
  | exe w => exact .inl (hh.exe_moves_on hu hdst hdrop)
  | alu w =>
    have hk := (hh.places.suits _ _ hu).1
    obtain ⟨d, hd⟩ := hu
    exact .inr ⟨_, .alu hk hd (drops_eq_false.mp hdrop).2⟩
  | mulDiv w =>
    obtain ⟨hbusy, rfl⟩ := hu
    by_cases hgo : (s.units w).mulDiv.respValid = true ∧
        (s.units w).mulDivReady (conf.kinds w) (s.unitInput i w) = true
    · exact .inr ⟨_, .mulDiv (ExeUnit.mulDivResp_eq_some.mpr ⟨hgo.1, rfl⟩) hgo.2⟩
    · refine .inl ⟨.mulDiv w, ExeUnit.mulDiv_works hbusy ?_ hdrop⟩
      intro hvalid
      rw [← Bool.not_eq_true]
      exact fun hready => hgo ⟨hvalid, hready⟩
  | load w =>
    by_cases hwait : u ∈ (s.units w).waiting (s.unitInput i w)
    · exact .inl ⟨.load w, ExeUnit.mem_loads_next.mpr ⟨u, .inl hwait, hdrop, rfl⟩⟩
    · -- it is the one that is answered
      cases hmem : i.memAnswer w with
      | none =>
        have hans : (s.unitInput i w).memAnswer = none := hmem
        rw [ExeUnit.waiting, hans] at hwait
        exact absurd hu hwait
      | some a =>
        have hans : (s.unitInput i w).memAnswer = some a := hmem
        rw [ExeUnit.waiting, hans] at hwait
        cases a with
        | store => exact absurd hu hwait
        | load n d =>
          obtain ⟨m, hm, hget⟩ := List.mem_iff_getElem.mp hu
          have hmn : m = n := by
            by_contra hne
            exact hwait (List.mem_eraseIdx_iff_getElem.mpr ⟨m, hm, hne, hget⟩)
          subst hmn
          exact .inr ⟨_, .load hmem (List.getElem?_eq_some_iff.mpr ⟨hm, hget⟩)⟩
  | gone => exact hu.elim

/-- A result of the multiplier is written, or offered again. -/
theorem mulDiv_waits {w : Fin W}
    (hr : (s.units w).mulDivResp (conf.kinds w) = some r) : r ∈ s.responses conf i ∨
      s.drops r.uop = true ∨ ((s.next conf i).units w).mulDivResp (conf.kinds w) =
        some { r with uop := r.uop.resolve s.front.core.brinfo } := by
  cases hready : (s.units w).mulDivReady (conf.kinds w) (s.unitInput i w) with
  | true => exact .inl (hh.places.mem_responses_of_answers (.mulDiv hr hready))
  | false =>
    cases hdrop : s.drops r.uop with
    | true => exact .inr (.inl rfl)
    | false => exact .inr (.inr (ExeUnit.mulDiv_waits hr hready hdrop))

end

end HistoryOk

/-! ### Runs -/

omit [NeZero W] in
theorem IsReset.valuesOk (hreset : s.IsReset) : ValuesOk conf s h := by
  have hval (x : RobSlot c) (hx : (s.front.core.rob.entry x).val = true) : False := by
    rw [hreset.front.core.rob.val x] at hx
    cases hx
  have hfree (p : PReg c) (hp : p ≠ 0) (hno : s.front.core.ren.freeList.freeList p = false) :
      False := by
    rw [hreset.front.core.ren.freeList p, decide_eq_true hp] at hno
    cases hno
  have hslot (k : Fin N) (hvalid : (s.front.issue.slots k).slotValid = true) : False := by
    rw [hreset.front.issue k] at hvalid
    cases hvalid
  exact
    { last := fun x hx => (hval x hx).elim
      writer := fun p hp hno => (hfree p hp hno).elim
      settled := fun p q hp hno => (hfree p hp hno).elim
      done := fun x hx => (hval x hx).elim
      woken := fun _ x hx => (hval x hx).elim
      sources := fun k _ hvalid => (hslot k hvalid).elim }

theorem reachable_valuesOk (hs : (machine conf N).Reachable (s, h)) :
    HistoryOk conf s h ∧ ValuesOk conf s h ∧ OperandsOk s h := by
  refine Machine.invariant (I := fun x => HistoryOk conf x.1 x.2 ∧ ValuesOk conf x.1 x.2 ∧
    OperandsOk x.1 x.2) ?_ ?_ (s, h) hs
  · rintro ⟨s, h⟩ ⟨hreset, rfl⟩
    have hfront : (CoreIssue.machine conf.hp N W).Reachable
        (s.front, ⟨0, fun _ => none, fun _ => none⟩) := .init ⟨hreset.front, rfl⟩
    refine ⟨⟨hreset.placesOk, hreset.resultsOk (fun _ => rfl) fun _ => rfl, hfront⟩,
      hreset.valuesOk, ?_⟩
    intro w r o hr
    rw [hreset.exeReg w] at hr
    cases hr
  · rintro ⟨s, h⟩ i ⟨s', h'⟩ - ⟨hh, hv, -⟩ ⟨hok, rfl, rfl⟩
    exact ⟨hh.next hok, hv.next hh, hv.operandsOk_next hh⟩

/-- **Issued micro-ops read the right values.** In every reachable state of the back end, with
execution units of any kind, each register operand of a micro-op in front of a unit is the result of
the micro-op that was last renamed to write that register before it. What an ALU makes of operands
is the result of its micro-op, and so is whatever is written to the register file. A result never
changes. A micro-op with a destination that is not dropped moves on until its result is written, and
where the multiplier has to wait for a port it offers the same result again. -/
theorem operands_right (c : BOOMConf) (N W : ℕ) [NeZero W] (conf : BackendConf c W) :
    ∀ s h, (machine conf N).Reachable (s, h) →
      (∀ w r o, s.exeReg w = some r → r.uop.lrsRtype o = .fix →
        (r.uop.pop o = 0 ∧ r.data o = 0) ∨ (r.uop.pop o ≠ 0 ∧
          ∃ q, h.LastWriter r.uop.seq (r.uop.pop o) q ∧ h.produced q = some (r.data o))) ∧
      ∀ i : BackendInput c W,
        (∀ w r, (conf.kinds w).aluReq (s.exeReg w) = some r → r.uop.kind.rfWen = true →
          r.uop.kind ≠ .csr →
            (logNext conf s i h).produced r.uop.seq = some (r.aluOut (i.currPc w))) ∧
        (∀ r ∈ s.responses conf i, r.writes = true →
          (logNext conf s i h).produced r.uop.seq = some r.data ∧
            (r.uop.pdst ≠ 0 → h.Writes r.uop.seq r.uop.pdst ∧
              (s.next conf i).regfile r.uop.pdst = r.data)) ∧
        (∀ q d, h.produced q = some d → (logNext conf s i h).produced q = some d) ∧
        (∀ g u, s.At g u → u.kind.hasDst = true → s.drops u = false →
          (∃ g', (s.next conf i).At g' (u.resolve s.front.core.brinfo)) ∨
            ∃ r ∈ s.responses conf i, r.uop.seq = u.seq ∧ r.writes = true) ∧
        ∀ w r, (s.units w).mulDivResp (conf.kinds w) = some r → r ∈ s.responses conf i ∨
          s.drops r.uop = true ∨ ((s.next conf i).units w).mulDivResp (conf.kinds w) =
            some { r with uop := r.uop.resolve s.front.core.brinfo } := by
  intro s h hs
  obtain ⟨hh, hv, hoperands⟩ := reachable_valuesOk hs
  refine ⟨hoperands, ?_⟩
  intro i
  refine ⟨?_, ?_, fun q d => produced_next_of_some, ?_, fun w r => hh.mulDiv_waits⟩
  · intro w r hr hwen hcsr
    have hm : Makes conf s i (.exe w) r.uop (r.aluOut (i.currPc w)) := .alu hr rfl hwen hcsr
    refine hh.places.produced_next_of_makes hh.ordered ?_ hm
    refine hh.results.unmade _ _ hm.at_place hm.hasDst ?_
    intro w hw
    cases hw
  · intro r hr hwrites
    obtain ⟨g, u, ha⟩ := hh.places.exists_answers hr
    have hdst := (hh.writes_iff ha).mp hwrites
    rw [ha.seq, ha.pdst]
    refine ⟨hh.results.produced_of_answers hh.places hh.ordered ha hdst, ?_⟩
    intro hne
    refine ⟨?_, hv.regfile_of_answers hh ha hdst hne⟩
    obtain ⟨x, hx, -, hneeds, hfrom⟩ := hh.exists_entry_of_dst ha.at_place hdst hne
    rw [hfrom.seq, hfrom.pdst]
    exact (hv.last x hx hneeds).writes
  · intro g u hu hdst hdrop
    rcases hh.moves_on hu hdst hdrop with hgoes | ⟨r, ha⟩
    · exact .inl hgoes
    · exact .inr ⟨r, hh.places.mem_responses_of_answers ha, ha.seq, (hh.writes_iff ha).mpr hdst⟩

/-- One micro-op a cycle, and a multiplier of eight bits a cycle. -/
def tiny : BackendConf .tiny 1 where
  hp _ := false
  kinds _ := .aluMulDMem
  mulDiv := ⟨8, true, false, false, by decide⟩
  regfileBypassing := false

/-- The back end after reset, every other register cleared. -/
def reset (c : BOOMConf) (N W : ℕ) : Backend c N W where
  front := CoreIssue.reset c N
  info _ := ⟨.nop, 0, .i, .zero, .zero, 0, .mul, false⟩
  exeReg _ := none
  units _ :=
    { alu := none
      mulDivUop := ⟨⟨Core.nullUop c, .other, bubble, 0, false⟩,
        ⟨.nop, 0, .i, .zero, .zero, 0, .mul, false⟩⟩
      mulDiv := ⟨.sReady, ⟨.mul, .dw64, 0, 0, 0⟩, 0, false, false, false, 0, 0⟩
      loads := [] }
  regfile _ := 0

theorem isReset_reset (c : BOOMConf) (N W : ℕ) : (reset c N W).IsReset where
  front := ⟨Core.isReset_reset c, fun _ => rfl⟩
  exeReg _ := rfl
  units _ := ⟨rfl, rfl, rfl⟩

/-- `x5 := x0 + 7` and `x6 := x5 + 7`. -/
def addiChain (valid : Bool) : BackendInput .tiny 1 where
  core := .feed valid (fun w => .addi false (if w = 0 then 5 else 6) (if w = 0 then 0 else 5)) []
  decs _ :=
    { uopc := .other
      inst := 0
      fuCode := ExeKind.alu.fuCode
      syscall := false
      fix_of_sta := fun _ h => absurd h (by decide)
      busy_of_fix := fun _ _ _ => ⟨rfl, rfl, rfl⟩
      info := ⟨.alu, 0x700, .i, .rs1, .imm, 0, .mul, true⟩
      fuCode_eq := fun _ _ => rfl
      sta_iff := fun _ => by decide
      not_std := by decide
      dst_iff := fun _ => iff_of_true rfl rfl
      store_iff := fun _ _ => iff_of_false Bool.false_ne_true (by decide)
      bru_of_branch := fun _ h => absurd h Bool.false_ne_true
      busy_of_kind := fun _ _ => ⟨rfl, rfl, rfl⟩
      flush_of_nop := fun _ h => absurd h (by decide) }
  mispredict := false
  otherHalf _ := false
  currPc _ := 0
  pcrReadOut := 0
  memAnswer _ := none

/-- Both are dispatched one cycle after reset, and issued in the next two cycles. -/
def afterAddiChain : Backend .tiny 4 1 × BackendLog .tiny 4 1 :=
  Machine.cycles (next tiny) (logNext tiny)
    [addiChain false, addiChain true, addiChain false, addiChain false] (reset .tiny 4 1,
      ⟨⟨0, fun _ => none, fun _ => none⟩, fun _ => none, fun _ => none, fun _ => .gone⟩)

/-- The second one reads the result of the first one on its way to the register file. -/
theorem operands_right_addiChain : ∃ r q, afterAddiChain.1.exeReg 0 = some r ∧
    r.uop.pop1 = 1 ∧ r.rs1Data = 7 ∧ afterAddiChain.1.regfile 1 = 0 ∧
    afterAddiChain.2.LastWriter r.uop.seq 1 q ∧ afterAddiChain.2.produced q = some 7 := by
  have hstart : (machine tiny 4).Reachable (reset .tiny 4 1,
      ⟨⟨0, fun _ => none, fun _ => none⟩, fun _ => none, fun _ => none, fun _ => .gone⟩) :=
    .init ⟨isReset_reset .tiny 4 1, rfl⟩
  have hreach : (machine tiny 4).Reachable afterAddiChain := by
    refine Machine.reachable_restrict_cycles hstart _ (.of_forall (fun i hi s w r hhalf => ?_) _)
    simp only [List.mem_cons, List.not_mem_nil, or_false] at hi
    rcases hi with rfl | rfl | rfl | rfl <;> cases hhalf
  have hreq : (afterAddiChain.1.exeReg 0).map (fun r => (r.uop.pop1, r.rs1Data,
      decide (r.uop.lrs1Rtype = .fix))) = some (1, 7, true) := by decide +kernel
  obtain ⟨r, hr, heq⟩ := Option.map_eq_some_iff.mp hreq
  obtain ⟨hpop, hdata, hfix⟩ : r.uop.pop1 = 1 ∧ r.rs1Data = 7 ∧ r.uop.lrs1Rtype = .fix := by
    simpa using heq
  rcases (operands_right .tiny 4 1 tiny _ _ hreach).1 0 r .first hr hfix with ⟨hzero, -⟩ | ⟨-, h⟩
  · exact absurd (hpop.symm.trans hzero) (by decide)
  · obtain ⟨q, hlast, hproduced⟩ := h
    refine ⟨r, q, hr, hpop, hdata, by decide +kernel, hpop ▸ hlast, ?_⟩
    exact hproduced.trans (congrArg some hdata)

end Backend

end RiscvSoc
