import RiscvSoc.Boom.BackendResults

/-!
# Operands

Whoever is issued reads the results of the micro-ops it depends on, wherever they are: on the bypass
network, or in the register file. A register that was woken up by the micro-op that writes it is in
an ALU now, was in one a cycle ago, or has been written. There is no gap between the three, and a
register is not handed out to somebody else in the meantime.

What is not in order is what a flush or a branch leaves behind. A register can be woken up by a
micro-op that is dropped in the same cycle. Then whoever waits for it is younger and is dropped,
too.
-/

namespace RiscvSoc

variable {c : BOOMConf} {N W : ℕ}

namespace Backend

variable {conf : BackendConf c W} {s : Backend c N W} {i : BackendInput c W}
  {h : BackendLog c N W}

/-! ### The bypass network -/

/-- What is at `g` puts `d` on the network. -/
inductive Offers (conf : BackendConf c W) (s : Backend c N W) (i : BackendInput c W) :
    Stage N W → ExeUop c → Word → Prop
  | exe {w : Fin W} {u : ExeUop c} {r : ExeReq c}
      (hr : (conf.kinds w).aluReq (s.exeReg w) = some r) (hu : r.uop = u) :
      Offers conf s i (.exe w) u (r.aluOut (i.currPc w))
  | alu {w : Fin W} {u : ExeUop c} {d : Word} (hk : (conf.kinds w).hasAlu = true)
      (hu : (s.units w).alu = some (u, d))
      (hkill : isKilledByBranch s.front.core.brinfo u.brMask = false) :
      Offers conf s i (.alu w) u d

namespace Offers

variable {g : Stage N W} {u : ExeUop c} {d d' : Word}

theorem at_place (ho : Offers conf s i g u d) : s.At g u := by
  cases ho with
  | exe hr hu => exact ⟨_, (ExeUnitKind.of_aluReq hr).1, hu⟩
  | alu _ hu => exact ⟨_, hu⟩

theorem unique (ho : Offers conf s i g u d) (ho' : Offers conf s i g u d') : d = d' := by
  cases ho with
  | exe hr =>
    cases ho' with
    | exe hr' =>
      cases hr.symm.trans hr'
      rfl
  | alu _ hu =>
    cases ho' with
    | alu _ hu' =>
      cases hu.symm.trans hu'
      rfl

theorem of_mem {b : ExeUop c × Word} (hb : b ∈ s.bypasses conf i) : ∃ g u,
    Offers conf s i g u b.2 ∧ b.1.kind = u.kind ∧ b.1.pdst = u.pdst := by
  obtain ⟨w, -, hw⟩ := List.mem_flatMap.mp hb
  split at hw
  case isFalse => cases hw
  case isTrue hk =>
    rcases List.mem_append.mp hw with hexe | halu
    · obtain ⟨r, hr, rfl⟩ := Option.map_eq_some_iff.mp (Option.mem_toList.mp hexe)
      exact ⟨.exe w, r.uop, .exe hr rfl, rfl, rfl⟩
    · obtain ⟨r, hr, rfl⟩ := Option.map_eq_some_iff.mp (Option.mem_toList.mp halu)
      obtain ⟨u, d, hu, hkill, rfl⟩ := ExeUnit.aluResp_eq_some.mp hr
      exact ⟨.alu w, u, .alu hk hu hkill, rfl, rfl⟩

theorem exists_mem (ho : Offers conf s i g u d) :
    ∃ b ∈ s.bypasses conf i, b.1.kind = u.kind ∧ b.1.pdst = u.pdst ∧ b.2 = d := by
  cases ho with
  | @exe w u r hr hu =>
    subst hu
    refine ⟨(r.uop, r.aluOut (i.currPc w)), ?_, rfl, rfl, rfl⟩
    refine List.mem_flatMap.mpr ⟨w, List.mem_finRange w, ?_⟩
    rw [if_pos (ExeUnitKind.of_aluReq hr).2.1]
    exact List.mem_append_left _
      (Option.mem_toList.mpr (Option.map_eq_some_iff.mpr ⟨r, hr, rfl⟩))
  | @alu w u d hk hu hkill =>
    have hresp := ExeUnit.aluResp_eq_some (i := s.unitInput i w).mpr ⟨u, d, hu, hkill, rfl⟩
    refine ⟨(u.resolve s.front.core.brinfo, d), ?_, rfl, rfl, rfl⟩
    refine List.mem_flatMap.mpr ⟨w, List.mem_finRange w, ?_⟩
    rw [if_pos hk]
    exact List.mem_append_right _
      (Option.mem_toList.mpr (Option.map_eq_some_iff.mpr ⟨_, hresp, rfl⟩))

end Offers

/-! ### The invariant -/

/-- The result of micro-op `q` is on its way through an ALU. -/
def Forwards (conf : BackendConf c W) (s : Backend c N W) (q : ℕ) : Prop :=
  (∃ w r, (conf.kinds w).aluReq (s.exeReg w) = some r ∧ r.uop.seq = q ∧ r.uop.kind = .alu) ∨
    ∃ w u d, (s.units w).alu = some (u, d) ∧ u.seq = q ∧ u.kind = .alu

variable [NeZero W]

structure HistoryOk (conf : BackendConf c W) (s : Backend c N W) (h : BackendLog c N W) :
    Prop where
  places : PlacesOk conf s h
  results : ResultsOk s h
  front : (CoreIssue.machine conf.hp N W).Reachable (s.front, h.wake)

structure ValuesOk (conf : BackendConf c W) (s : Backend c N W) (h : BackendLog c N W) :
    Prop where
  last : ∀ x, (s.front.core.rob.entry x).val = true →
    (s.front.core.rob.entry x).uop.needsPreg = true →
      h.LastWriter s.front.core.count (s.front.core.rob.entry x).uop.pdst
        (s.front.core.rob.entry x).uop.seq
  writer : ∀ p, p ≠ 0 → s.front.core.ren.freeList.freeList p = false →
    ∃ q, h.LastWriter s.front.core.count p q
  /-- A register that nobody in the buffer writes holds the result of its last writer. -/
  settled : ∀ p q, p ≠ 0 → s.front.core.ren.freeList.freeList p = false →
    (∀ x, (s.front.core.rob.entry x).val = true →
      (s.front.core.rob.entry x).uop.needsPreg = true → (s.front.core.rob.entry x).uop.pdst ≠ p) →
    h.LastWriter s.front.core.count p q → h.produced q = some (s.regfile p)
  /-- So does one whose writer is done. -/
  done : ∀ x, (s.front.core.rob.entry x).val = true →
    (s.front.core.rob.entry x).uop.needsPreg = true →
    (s.front.core.rob.entry x).uop.exception = false → (s.front.core.rob.entry x).bsy = false →
      h.produced (s.front.core.rob.entry x).uop.seq =
        some (s.regfile (s.front.core.rob.entry x).uop.pdst)
  /-- Between a wakeup and the register file is the bypass network. -/
  woken : (s.front.core.rob.state = .rollback → s.front.core.rob.flushPipeline = true) →
    ∀ x, (s.front.core.rob.entry x).val = true →
      (s.front.core.rob.entry x).uop.needsPreg = true →
      h.wake.WokenSince (s.front.core.rob.entry x).uop.pdst →
        (s.front.core.rob.entry x).uop.exception = false ∧
          ((s.front.core.rob.entry x).bsy = false ∨
            Forwards conf s (s.front.core.rob.entry x).uop.seq)
  /-- What waits for a register is older than whoever is given it next. -/
  sources : ∀ k o, (s.front.issue.slots k).slotValid = true →
    (s.front.issue.slots k).slotUop.lrsRtype o = .fix → (s.front.issue.slots k).slotUop.pop o ≠ 0 →
      ∀ q, (s.front.issue.slots k).slotUop.seq ≤ q → q < s.front.core.count →
        ¬h.Writes q ((s.front.issue.slots k).slotUop.pop o)

namespace HistoryOk

variable {g g' : Stage N W} {u v : ExeUop c} {r : ExeResp c} {p : PReg c}

section

variable (hh : HistoryOk conf s h)
include hh

theorem ordered : s.front.core.Ordered :=
  Core.reachable_ordered (CoreIssue.reachable_core hh.front)

theorem tables : s.front.core.TablesOk :=
  Core.reachable_tablesOk (CoreIssue.reachable_core hh.front)

theorem sources : s.front.core.SourcesOk :=
  Core.reachable_sourcesOk (CoreIssue.reachable_core hh.front)

theorem wake : s.front.WakeOk h.wake :=
  CoreIssue.reachable_wakeOk hh.front

theorem next (hok : i.Ok s) :
    HistoryOk conf (s.next conf i) (logNext conf s i h) where
  places := hh.places.next hh.ordered hok
  results := hh.results.next hh.places hh.ordered
  front := .step hh.front ⟨hh.places.input_ok hh.ordered hok, rfl, rfl⟩

/-! ### The back end and the buffer -/

theorem from_of_seq (hu : s.At g u) {x : RobSlot c} (hx : (s.front.core.rob.entry x).val = true)
    (hseq : u.seq = (s.front.core.rob.entry x).uop.seq) :
    u.From (s.front.core.rob.entry x).uop ∧
      (u.kind ≠ .nop → (s.front.core.rob.entry x).bsy = true) := by
  have ho := hh.ordered
  obtain ⟨y, hy, hbsy, hfrom⟩ := hh.places.exists_from hu hx
  have heq := ho.eq_of_seq (Rob.mem_window.mpr ⟨x, hx, rfl⟩) (Rob.mem_window.mpr ⟨y, hy, rfl⟩)
    (hseq.symm.trans hfrom.seq)
  have hxy : x = y := by
    rw [← ho.shaped.addressed x hx, ← ho.shaped.addressed y hy, heq]
  subst hxy
  exact ⟨hfrom, hbsy⟩

end

theorem ne_nop_of_dst (hdst : u.kind.hasDst = true) : u.kind ≠ .nop := by
  intro hnop
  rw [hnop] at hdst
  cases hdst

section

variable (hh : HistoryOk conf s h)
include hh

/-- What will write a register is in the buffer, and busy. -/
theorem exists_entry_of_dst (hu : s.At g u) (hdst : u.kind.hasDst = true) (hne : u.pdst ≠ 0) : ∃ x,
      (s.front.core.rob.entry x).val = true ∧ (s.front.core.rob.entry x).bsy = true ∧
        (s.front.core.rob.entry x).uop.needsPreg = true ∧
        u.From (s.front.core.rob.entry x).uop := by
  rcases hh.places.backed g u hu with ⟨x, hx, hbsy, hfrom⟩ | ⟨hnop, -, -⟩
  · refine ⟨x, hx, hbsy (ne_nop_of_dst hdst), ?_, hfrom⟩
    have hfix : (s.front.core.rob.entry x).uop.ldstRtype = .fix :=
      hfrom.ldstRtype ▸ (hh.places.row g u hu).dst.mpr hdst
    rw [← Bool.not_eq_false]
    intro hidle
    have hzero := (hh.tables.idle _ (Rob.mem_window.mpr ⟨x, hx, rfl⟩) hfix hidle).1
    exact hne (hfrom.pdst.trans hzero)
  · exact absurd hnop (ne_nop_of_dst hdst)

theorem writes_iff (ha : Answers conf s i g u r) :
    r.writes = true ↔ u.kind.hasDst = true := by
  have hrow := hh.places.row g u ha.at_place
  have hsuits := hh.places.suits g u ha.at_place
  cases ha with
  | @alu w u d hk hu hkill =>
    rw [wbData_writes, ExeResp.writes, Bool.and_eq_true, decide_eq_true_eq]
    constructor
    · exact fun h => hrow.dst.mp h.2
    · intro hdst
      refine ⟨?_, hrow.dst.mpr hdst⟩
      have hload := hsuits.2.2
      show u.kind.rfWen = true
      cases hkind : u.kind <;> rw [hkind] at hdst hload <;> first
        | rfl
        | exact absurd rfl hload
        | cases hdst
  | @mulDiv w r hr hready =>
    obtain ⟨-, rfl⟩ := ExeUnit.mulDivResp_eq_some.mp hr
    rw [ExeResp.writes, Bool.and_eq_true, decide_eq_true_eq]
    constructor
    · exact fun h => ExeKind.hasDst_of_rfWen h.1
    · intro hdst
      have hkind := hsuits.2.resolve_right (ne_nop_of_dst hdst)
      refine ⟨?_, ?_⟩
      · rw [hkind]
        rfl
      · dsimp only
        split
        · rfl
        · exact hrow.dst.mpr hdst
  | load =>
    rw [hsuits.2]
    exact iff_of_true rfl rfl

/-- What is written was answered by somebody with a destination. -/
theorem of_mem_writePorts {x : PReg c × Word}
    (hx : x ∈ s.writePorts conf i) : ∃ g u r, Answers conf s i g u r ∧ u.kind.hasDst = true ∧
      u.pdst = x.1 ∧ r.data = x.2 := by
  obtain ⟨r, hr, rfl⟩ := List.mem_map.mp hx
  obtain ⟨hr, hwrites⟩ := List.mem_filter.mp hr
  obtain ⟨g, u, ha⟩ := hh.places.exists_answers hr
  exact ⟨g, u, r, ha, (hh.writes_iff ha).mp hwrites, ha.pdst.symm, rfl⟩

theorem mem_writePorts (ha : Answers conf s i g u r)
    (hdst : u.kind.hasDst = true) : (u.pdst, r.data) ∈ s.writePorts conf i := by
  refine List.mem_map.mpr ⟨r, List.mem_filter.mpr ⟨hh.places.mem_responses_of_answers ha, ?_⟩, ?_⟩
  · exact (hh.writes_iff ha).mpr hdst
  · rw [ha.pdst]

end

/-- Nobody in the back end writes the register. -/
def Quiet (s : Backend c N W) (p : PReg c) : Prop :=
  ∀ g u, s.At g u → u.kind.hasDst = true → u.pdst ≠ p

theorem regfile_of_quiet (hh : HistoryOk conf s h) (hq : Quiet s p) :
    (s.next conf i).regfile p = s.regfile p := by
  refine RegisterFile.next_of_not_mem ?_
  intro x hx hxp
  obtain ⟨g, u, r, ha, hdst, hpdst, -⟩ := hh.of_mem_writePorts hx
  exact hq g u ha.at_place hdst (hpdst.trans hxp)

/-- **A register nobody writes is read from the register file.** -/
theorem operand_of_quiet (hh : HistoryOk conf s h) {o : Operand} (hne : v.pop o ≠ 0)
    (hq : Quiet s (v.pop o)) : s.operand conf i v o = s.regfile (v.pop o) := by
  rw [operand, RegisterRead.bypassed_of_not_mem, RegisterFile.read_of_not_mem hne]
  · intro x hx hxp
    obtain ⟨g, u, r, ha, hdst, hpdst, -⟩ := hh.of_mem_writePorts hx
    exact hq g u ha.at_place hdst (hpdst.trans hxp)
  · intro b hb hwen hbp
    obtain ⟨g, u, hoff, hkind, hpdst⟩ := Offers.of_mem hb
    rw [hkind] at hwen
    exact hq g u hoff.at_place (ExeKind.hasDst_of_rfWen hwen) (hpdst.symm.trans hbp)

theorem operand_zero {o : Operand} (hpop : v.pop o = 0) : s.operand conf i v o = 0 := by
  rw [operand, hpop, RegisterRead.bypassed_zero, RegisterFile.read_zero]

end HistoryOk

namespace ValuesOk

variable {g g' : Stage N W} {u v : ExeUop c} {r : ExeResp c} {p : PReg c}

section

variable (hv : ValuesOk conf s h) (hh : HistoryOk conf s h)
include hv hh

theorem seq_of_pdst (hu : s.At g u) (hdst : u.kind.hasDst = true) {x : RobSlot c}
    (hx : (s.front.core.rob.entry x).val = true)
    (hneeds : (s.front.core.rob.entry x).uop.needsPreg = true)
    (hpdst : u.pdst = (s.front.core.rob.entry x).uop.pdst) :
    u.seq = (s.front.core.rob.entry x).uop.seq := by
  have hne : u.pdst ≠ 0 := by
    rw [hpdst]
    exact hh.tables.pdst_ne _ (Rob.mem_window.mpr ⟨x, hx, rfl⟩) hneeds
  obtain ⟨y, hy, -, hneeds', hfrom⟩ := hh.exists_entry_of_dst hu hdst hne
  have hlast := hv.last y hy hneeds'
  rw [← hfrom.pdst, hpdst] at hlast
  exact hfrom.seq.trans (hlast.unique (hv.last x hx hneeds))

/-- **One micro-op in the back end writes a register.** -/
theorem eq_of_pdst (hu : s.At g u)
    (hu' : s.At g' v) (hdst : u.kind.hasDst = true) (hdst' : v.kind.hasDst = true)
    (hpdst : u.pdst = v.pdst) (hne : u.pdst ≠ 0) : g = g' ∧ u = v := by
  obtain ⟨x, hx, -, hneeds, hfrom⟩ := hh.exists_entry_of_dst hu hdst hne
  have hseq := hv.seq_of_pdst hh hu' hdst' hx hneeds (hpdst.symm.trans hfrom.pdst)
  exact hh.places.eq_of_seq hh.ordered hu hu' (hfrom.seq.trans hseq.symm)
    ((hh.places.row g u hu).not_store_of_dst hdst)

theorem quiet_of_done {x : RobSlot c} (hx : (s.front.core.rob.entry x).val = true)
    (hneeds : (s.front.core.rob.entry x).uop.needsPreg = true)
    (hbsy : (s.front.core.rob.entry x).bsy = false) :
    HistoryOk.Quiet s (s.front.core.rob.entry x).uop.pdst := by
  intro g u hu hdst hpdst
  have hseq := hv.seq_of_pdst hh hu hdst hx hneeds hpdst
  have hbusy := (hh.from_of_seq hu hx hseq).2 (HistoryOk.ne_nop_of_dst hdst)
  exact Bool.false_ne_true (hbsy.symm.trans hbusy)

end

theorem quiet_of_settled (hh : HistoryOk conf s h) (hne : p ≠ 0)
    (hno : ∀ x, (s.front.core.rob.entry x).val = true →
      (s.front.core.rob.entry x).uop.needsPreg = true → (s.front.core.rob.entry x).uop.pdst ≠ p) :
    HistoryOk.Quiet s p := by
  rintro g u hu hdst rfl
  obtain ⟨x, hx, -, hneeds, hfrom⟩ := hh.exists_entry_of_dst hu hdst hne
  exact hno x hx hneeds hfrom.pdst.symm

/-- **What is on the network is read from there.** -/
theorem operand_of_offers (hv : ValuesOk conf s h) (hh : HistoryOk conf s h) {d : Word}
    (hoff : Offers conf s i g u d) (hwen : u.kind.rfWen = true) {o : Operand}
    (hfix : v.lrsRtype o = .fix) (hne : v.pop o ≠ 0) (hpdst : u.pdst = v.pop o) :
    s.operand conf i v o = d := by
  refine RegisterRead.bypassed_of_agree hfix hne ?_ ?_
  · intro b hb hwen' hbp
    obtain ⟨g', u', hoff', hkind, hpdst'⟩ := Offers.of_mem hb
    rw [hkind] at hwen'
    obtain ⟨rfl, rfl⟩ := hv.eq_of_pdst hh hoff.at_place hoff'.at_place
      (ExeKind.hasDst_of_rfWen hwen) (ExeKind.hasDst_of_rfWen hwen')
      (hpdst.trans (hbp.symm.trans hpdst')) (hpdst ▸ hne)
    exact hoff'.unique hoff
  · obtain ⟨b, hb, hkind, hpdst', -⟩ := hoff.exists_mem
    exact ⟨b, hb, hkind ▸ hwen, hpdst'.trans hpdst⟩

/-- **What is answered is in the register file** a cycle later. -/
theorem regfile_of_answers (hv : ValuesOk conf s h) (hh : HistoryOk conf s h)
    (ha : Answers conf s i g u r) (hdst : u.kind.hasDst = true) (hne : u.pdst ≠ 0) :
    (s.next conf i).regfile u.pdst = r.data := by
  refine RegisterFile.next_of_agree hne ?_ ⟨_, hh.mem_writePorts ha hdst, rfl⟩
  intro x hx hxp
  obtain ⟨g', u', r', ha', hdst', hpdst', hdata⟩ := hh.of_mem_writePorts hx
  obtain ⟨rfl, rfl⟩ := hv.eq_of_pdst hh ha.at_place ha'.at_place hdst hdst'
    (hxp.symm.trans hpdst'.symm) hne
  rw [← hdata, ha'.unique ha]

end ValuesOk

end Backend

end RiscvSoc
