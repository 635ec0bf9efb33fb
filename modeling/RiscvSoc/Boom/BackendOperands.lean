import RiscvSoc.Boom.BackendValues

/-!
# Operands are right

`Backend.ValuesOk` is kept by every cycle, and what it says about the registers that were woken up
is what makes operands right.
-/

namespace RiscvSoc

open Rob

variable {c : BOOMConf} {N W : ℕ}

namespace Core

variable {s : Core c} {i : CoreInput c}

theorem TablesOk.freeList_of_pdst (ht : s.TablesOk) {x : RobSlot c}
    (hx : (s.rob.entry x).val = true) (hneeds : (s.rob.entry x).uop.needsPreg = true) :
    s.ren.freeList.freeList (s.rob.entry x).uop.pdst = false := by
  have hmem := mem_window.mpr ⟨x, hx, rfl⟩
  exact ht.freeList_of_taken (ht.pdst_ne _ hmem hneeds) (mem_taken.mpr ⟨_, hmem, hneeds, rfl⟩)

/-- A register that is not free after a cycle was handed out in it, or was not free before. -/
theorem TablesOk.not_free_of_next (ht : s.TablesOk) (ho : s.Ordered) {p : PReg c} (hp : p ≠ 0)
    (h : (s.next i).ren.freeList.freeList p = false) (hout : s.handsOut i p = false) :
    s.ren.freeList.freeList p = false ∧ p ∉ stale (s.rob.window.filter s.commits) ∧
      p ∉ taken (s.rob.window.filter (s.dies i)) := by
  rw [← Bool.not_eq_true, ht.freeList_next ho hp] at h
  simp only [not_or, not_and, not_not] at h
  obtain ⟨hfree, hstale, hdies⟩ := h
  refine ⟨?_, hstale, hdies⟩
  rw [← Bool.not_eq_true]
  intro hf
  obtain ⟨w, hw, hneeds, hpdst⟩ := mem_taken_newUops.mp (hfree hf)
  rw [handsOut_eq_true.mpr ⟨w, hw, hneeds, hpdst⟩] at hout
  cases hout

/-- What a bundle is told about a register is not handed out by the rest of the bundle. -/
theorem TablesOk.not_pdst_of_pop (ht : s.TablesOk) {v w : Bank c} {o : Operand}
    (hw : s.disMask i w = true) (hfix : (s.disUops i w).lrsRtype o = .fix)
    (hne : (s.disUops i w).pop o ≠ 0) (hv : s.disMask i v = true)
    (hneeds : (s.disUops i v).needsPreg = true) (hwv : w ≤ v) :
    (s.disUops i v).pdst ≠ (s.disUops i w).pop o := by
  intro hpdst
  have hpop := ht.pop_eq_mappedBefore hw hfix
  rw [mappedBefore_disUops hw, tableAfter_eq w.isLt.le] at hpop
  rcases replay_eq_or s.ren.mapTable.element (renameLog (s.newUopsUpTo i w))
      ((s.disUops i w).lrs o) with hold | ⟨e, he, hnew⟩
  · rw [hold] at hpop
    have hfree := (free_of_newUops (mem_newUops.mpr ⟨v, hv, rfl⟩) hneeds).2
    rw [hpdst, ht.freeList_of_mapped hne hpop.symm] at hfree
    cases hfree
  · rw [← hpop] at hnew
    obtain ⟨u, hu, hneeds', hpdst'⟩ := mem_map_new.mp (List.mem_map.mpr ⟨e, he, hnew⟩)
    obtain ⟨x, hx, rfl⟩ := List.mem_map.mp hu
    obtain ⟨hx, hdis⟩ := List.mem_filter.mp hx
    rw [take_finRange] at hx
    have hlt : (x : ℕ) < w := of_decide_eq_true (List.mem_filter.mp hx).2
    have hxv : x = v := RenameStage.pdst_inj
      ((writes_renInput x).trans (by rw [hdis, hneeds']; rfl))
      ((writes_renInput v).trans (by rw [hv, hneeds]; rfl)) (hpdst'.trans hpdst.symm)
    rw [hxv] at hlt
    exact absurd hwv (not_le.mpr hlt)

end Core

namespace Backend

variable [NeZero W] {conf : BackendConf c W} {s : Backend c N W} {i : BackendInput c W}
  {h : BackendLog c N W}

theorem not_flushVal_of_rollback {s : Rob c} (hroll : s.state = .rollback) :
    ¬s.flushVal = true := by
  have hbad : ¬(s.state = .normal ∨ s.state = .waitTillEmpty) := by
    rw [hroll]
    rintro (h | h) <;> cases h
  rw [flushVal, Bool.or_eq_true, orR_eq_true]
  rintro (hthrow | ⟨w, hw⟩)
  · exact hbad (exceptionThrown_eq_true.mp hthrow).1
  · exact hbad (willCommit_eq_true.mp (Bool.and_eq_true_iff.mp hw).1).1

/-! ### Entries -/

variable {x : RobSlot c}

/-- **What is in an entry after a cycle** is what was dispatched into it, or what was in it. -/
theorem HistoryOk.entry_next (hh : HistoryOk conf s h)
    (hx : ((s.next conf i).front.core.rob.entry x).val = true) :
    (∃ w, x = (s.front.core.rob.tail, w) ∧ s.front.core.disMask (s.coreInput conf i) w = true ∧
      s.front.core.rob.fills (s.front.core.robInput (s.coreInput conf i)) x = true ∧
      ((s.next conf i).front.core.rob.entry x).uop =
        s.front.core.disUops (s.coreInput conf i) w) ∨
    ((s.front.core.rob.entry x).val = true ∧
      s.front.core.rob.removes (s.front.core.robInput (s.coreInput conf i)) x = false ∧
      s.front.core.rob.fills (s.front.core.robInput (s.coreInput conf i)) x = false ∧
      ((s.next conf i).front.core.rob.entry x).uop =
        (s.front.core.rob.entry x).uop.resolve s.front.core.brinfo) := by
  have ho := hh.ordered
  obtain ⟨hkeep, hfill | hval⟩ := val_next_eq_true.mp hx
  · obtain ⟨hrow, hw⟩ := fills_eq_true.mp hfill
    refine .inl ⟨x.2, Prod.ext hrow rfl, hw, hfill, ?_⟩
    exact uop_next_of_fills ho.shaped ho.accepts hfill
  · exact .inr ⟨hval, hkeep, ho.shaped.fills_of_val ho.accepts hval,
      uop_next_of_stays ho.shaped ho.accepts hval hkeep⟩

/-- A busy bit that is clear stays clear while the entry is in use. -/
theorem HistoryOk.bsy_next (hh : HistoryOk conf s h) (hx : (s.front.core.rob.entry x).val = true)
    (hbsy : (s.front.core.rob.entry x).bsy = false) :
    ((s.next conf i).front.core.rob.entry x).bsy = false := by
  cases hclear : (s.front.core.robInput (s.coreInput conf i)).clearsBsy x with
  | true => exact bsy_next_of_clears hclear
  | false =>
    exact (bsy_next_of_stays hh.ordered.shaped hh.ordered.accepts hx hclear).trans hbsy

theorem HistoryOk.bsy_next_of_answers (hh : HistoryOk conf s h) {g : Stage N W} {u : ExeUop c}
    {r : ExeResp c} (ha : Answers conf s i g u r) (hstore : u.isStore = false)
    (hx : (s.front.core.rob.entry x).val = true)
    (hseq : u.seq = (s.front.core.rob.entry x).uop.seq) :
    ((s.next conf i).front.core.rob.entry x).bsy = false := by
  have hclear := hh.places.clearsBsy_of_answers ha hstore
  have hfrom := (hh.from_of_seq ha.at_place hx hseq).1
  rw [hfrom.robIdx, hh.ordered.shaped.addressed x hx] at hclear
  exact bsy_next_of_clears hclear

namespace ValuesOk

variable {x : RobSlot c} {q : ℕ} {k : Fin N} {o : Operand}

section

variable (hv : ValuesOk conf s h) (hh : HistoryOk conf s h)
include hv hh

theorem last_next (hx : ((s.next conf i).front.core.rob.entry x).val = true)
    (hneeds : ((s.next conf i).front.core.rob.entry x).uop.needsPreg = true) :
    (logNext conf s i h).LastWriter (s.next conf i).front.core.count
      ((s.next conf i).front.core.rob.entry x).uop.pdst
      ((s.next conf i).front.core.rob.entry x).uop.seq := by
  rcases hh.entry_next hx with ⟨w, rfl, hw, -, huop⟩ | ⟨hval, -, -, huop⟩
  · rw [huop] at hneeds ⊢
    exact hh.results.lastWriter_new hw hneeds
  · rw [huop] at hneeds ⊢
    refine hh.results.lastWriter_next_of_kept ?_ (hv.last x hval hneeds)
    exact Core.handsOut_of_not_free fun _ => hh.tables.freeList_of_pdst hval hneeds

theorem writer_next {p : PReg c} (hp : p ≠ 0)
    (hfree : (s.next conf i).front.core.ren.freeList.freeList p = false) :
    ∃ q, (logNext conf s i h).LastWriter (s.next conf i).front.core.count p q := by
  cases hout : s.front.core.handsOut (s.coreInput conf i) p with
  | true =>
    obtain ⟨w, hw, hneeds, rfl⟩ := Core.handsOut_eq_true.mp hout
    exact ⟨_, hh.results.lastWriter_new hw hneeds⟩
  | false =>
    obtain ⟨hold, -, -⟩ := hh.tables.not_free_of_next hh.ordered hp hfree hout
    obtain ⟨q, hq⟩ := hv.writer p hp hold
    exact ⟨q, hh.results.lastWriter_next_of_kept hout hq⟩

/-- A register that was settled, or whose writer was done, is left alone. -/
theorem settled_next {p : PReg c}
    (hp : p ≠ 0) (hfree : (s.next conf i).front.core.ren.freeList.freeList p = false)
    (hno : ∀ x, ((s.next conf i).front.core.rob.entry x).val = true →
      ((s.next conf i).front.core.rob.entry x).uop.needsPreg = true →
        ((s.next conf i).front.core.rob.entry x).uop.pdst ≠ p)
    (hq : (logNext conf s i h).LastWriter (s.next conf i).front.core.count p q) :
    (logNext conf s i h).produced q = some ((s.next conf i).regfile p) := by
  have ho := hh.ordered
  have hout : s.front.core.handsOut (s.coreInput conf i) p = false := by
    rw [← Bool.not_eq_true]
    intro hout
    obtain ⟨w, hw, hneeds, hpdst⟩ := Core.handsOut_eq_true.mp hout
    have hfill : s.front.core.rob.fills (s.front.core.robInput (s.coreInput conf i))
        (s.front.core.rob.tail, w) = true := fills_eq_true.mpr ⟨rfl, hw⟩
    have huop : ((s.next conf i).front.core.rob.entry (s.front.core.rob.tail, w)).uop =
        s.front.core.disUops (s.coreInput conf i) w :=
      uop_next_of_fills ho.shaped ho.accepts hfill
    refine hno _ (val_next_of_fills ho.shaped ho.accepts hfill) ?_ ?_ <;> rw [huop]
    · exact hneeds
    · exact hpdst
  obtain ⟨hold, -, hdies⟩ := hh.tables.not_free_of_next ho hp hfree hout
  obtain ⟨q₀, hq₀⟩ := hv.writer p hp hold
  cases hq.unique (hh.results.lastWriter_next_of_kept hout hq₀)
  by_cases hin : ∃ x, (s.front.core.rob.entry x).val = true ∧
      (s.front.core.rob.entry x).uop.needsPreg = true ∧ (s.front.core.rob.entry x).uop.pdst = p
  · -- its writer has committed in this cycle
    obtain ⟨x, hx, hneeds, rfl⟩ := hin
    have hmem : (s.front.core.rob.entry x).uop ∈ s.front.core.rob.window :=
      mem_window.mpr ⟨x, hx, rfl⟩
    have hcom : s.front.core.rob.commits x = true := by
      by_contra hcom
      rw [Bool.not_eq_true] at hcom
      have hstays : s.front.core.dies (s.coreInput conf i) (s.front.core.rob.entry x).uop =
          false := by
        rw [← Bool.not_eq_true]
        intro hdie
        exact hdies (Core.mem_taken.mpr ⟨_, List.mem_filter.mpr ⟨hmem, hdie⟩, hneeds, rfl⟩)
      rw [Core.dies, ho.shaped.addressed x hx, Bool.or_eq_false_iff] at hstays
      have hkeep : s.front.core.rob.removes (s.front.core.robInput (s.coreInput conf i))
          x = false :=
        removes_eq_false.mpr ⟨hcom, hstays⟩
      have huop : ((s.next conf i).front.core.rob.entry x).uop =
          (s.front.core.rob.entry x).uop.resolve s.front.core.brinfo :=
        uop_next_of_stays ho.shaped ho.accepts hx hkeep
      refine hno x (val_next_eq_true.mpr ⟨hkeep, .inr hx⟩) ?_ ?_ <;> rw [huop]
      · exact hneeds
      · rfl
    obtain ⟨hrow, hwill⟩ := commits_eq_true.mp hcom
    obtain ⟨-, hval, hall⟩ := willCommit_eq_true.mp hwill
    obtain ⟨hbsy, hexc⟩ := hall x.2 le_rfl hval
    rw [← hrow] at hbsy hexc
    have hexc' : (s.front.core.rob.entry x).uop.exception = false := by
      rw [← Bool.not_eq_true]
      intro hexc'
      exact Bool.false_ne_true (hexc.symm.trans (hh.ordered.xcpt x hx hexc'))
    cases hq₀.unique (hv.last x hx hneeds)
    rw [hh.regfile_of_quiet (hv.quiet_of_done hh hx hneeds hbsy)]
    exact produced_next_of_some (hv.done x hx hneeds hexc' hbsy)
  · have hnone : ∀ x, (s.front.core.rob.entry x).val = true →
        (s.front.core.rob.entry x).uop.needsPreg = true →
          (s.front.core.rob.entry x).uop.pdst ≠ p :=
      fun x hx hneeds hpdst => hin ⟨x, hx, hneeds, hpdst⟩
    rw [hh.regfile_of_quiet (quiet_of_settled hh hp hnone)]
    exact produced_next_of_some (hv.settled p _ hp hold hnone hq₀)

theorem done_next (hx : ((s.next conf i).front.core.rob.entry x).val = true)
    (hneeds : ((s.next conf i).front.core.rob.entry x).uop.needsPreg = true)
    (hexc : ((s.next conf i).front.core.rob.entry x).uop.exception = false)
    (hbsy : ((s.next conf i).front.core.rob.entry x).bsy = false) :
    (logNext conf s i h).produced ((s.next conf i).front.core.rob.entry x).uop.seq =
      some ((s.next conf i).regfile ((s.next conf i).front.core.rob.entry x).uop.pdst) := by
  have ho := hh.ordered
  rcases hh.entry_next hx with ⟨w, rfl, hw, hfill, huop⟩ | ⟨hval, hkeep, -, huop⟩
  · -- what has just been dispatched and has a destination is busy
    exfalso
    rw [huop] at hneeds hexc
    have hexc : (i.core.decInsts w).exception = false := hexc
    have hfix : (i.core.decInsts w).ldstRtype = .fix := (needsPreg_eq_true.mp hneeds).1
    have hdst := ((i.decs w).dst_iff hexc).mp hfix
    have hnop : (i.decs w).info.kind ≠ .nop := by
      intro hnop
      rw [hnop] at hdst
      cases hdst
    obtain ⟨hsret, hmem, hfencei⟩ := (i.decs w).busy_of_kind hexc hnop
    have hset := bsy_next_of_fills hfill (hh.places.clearsBsy_new ho hw)
    have hset : ((s.next conf i).front.core.rob.entry (s.front.core.rob.tail, w)).bsy =
        (!(i.core.decInsts w).isSret && !(i.core.decInsts w).isMemSpecial &&
          !(i.core.decInsts w).isFencei) := hset
    rw [hbsy, hsret, hmem, hfencei] at hset
    cases hset
  · rw [huop] at hneeds hexc ⊢
    have hneeds : (s.front.core.rob.entry x).uop.needsPreg = true := hneeds
    have hne : (s.front.core.rob.entry x).uop.pdst ≠ 0 :=
      hh.tables.pdst_ne _ (mem_window.mpr ⟨x, hval, rfl⟩) hneeds
    have hfix := (needsPreg_eq_true.mp hneeds).1
    show (logNext conf s i h).produced (s.front.core.rob.entry x).uop.seq =
      some ((s.next conf i).regfile (s.front.core.rob.entry x).uop.pdst)
    cases hclear : (s.front.core.robInput (s.coreInput conf i)).clearsBsy x with
    | false =>
      have hold : (s.front.core.rob.entry x).bsy = false :=
        (bsy_next_of_stays ho.shaped ho.accepts hval hclear).symm.trans hbsy
      rw [hh.regfile_of_quiet (hv.quiet_of_done hh hval hneeds hold)]
      exact produced_next_of_some (hv.done x hval hneeds hexc hold)
    | true =>
      -- whoever clears the bit is in this entry
      have hfrom {g : Stage N W} {u : ExeUop c} (hu : s.At g u) (hidx : robSlot u.robIdx = x) :
          u.From (s.front.core.rob.entry x).uop := by
        obtain ⟨y, hy, -, hfrom⟩ := hh.places.exists_from hu hval
        rw [hfrom.robIdx, ho.shaped.addressed y hy] at hidx
        exact hidx ▸ hfrom
      rcases hh.places.of_clearsBsy hclear with ⟨g, u, r, ha, -, hidx⟩ | ⟨w, r, hr, -, hkind, hidx⟩
      · have hu := hfrom ha.at_place hidx
        have hdst := (hh.places.row g u ha.at_place).dst.mp (hu.ldstRtype.trans hfix)
        have hreg := hv.regfile_of_answers hh ha hdst (hu.pdst ▸ hne)
        rw [hu.pdst] at hreg
        rw [hreg, ← hu.seq]
        exact hh.results.produced_of_answers hh.places ho ha hdst
      · have hat : s.At (.exe w) r.uop := ⟨r, hr, rfl⟩
        have hu := hfrom hat hidx
        have hdst := (hh.places.row _ _ hat).dst.mp (hu.ldstRtype.trans hfix)
        rcases hkind with hkind | hkind <;>
          · rw [hkind] at hdst
            cases hdst

end

/-! ### Wakeups -/

theorem drops_of_stays (hh : HistoryOk conf s h) {g : Stage N W} {u : ExeUop c} (hu : s.At g u)
    (hx : (s.front.core.rob.entry x).val = true) (hseq : u.seq = (s.front.core.rob.entry x).uop.seq)
    (hflush : s.front.core.rob.flushPipeline = false)
    (hkeep : s.front.core.rob.removes (s.front.core.robInput (s.coreInput conf i)) x = false) :
    s.drops u = false := by
  refine drops_eq_false.mpr ⟨hflush, ?_⟩
  have hkill := (removes_eq_false.mp hkeep).2.1
  rw [Rob.brKills, hx, Bool.true_and] at hkill
  rw [(hh.from_of_seq hu hx hseq).1.brMask]
  exact hkill

section

variable (hv : ValuesOk conf s h) (hh : HistoryOk conf s h)
include hv hh

/-- **Between a wakeup and the register file is the bypass network.** -/
theorem woken_next
    (hroll : (s.next conf i).front.core.rob.state = .rollback →
      (s.next conf i).front.core.rob.flushPipeline = true)
    (hx : ((s.next conf i).front.core.rob.entry x).val = true)
    (hneeds : ((s.next conf i).front.core.rob.entry x).uop.needsPreg = true)
    (hwoken : (logNext conf s i h).wake.WokenSince
      ((s.next conf i).front.core.rob.entry x).uop.pdst) :
    ((s.next conf i).front.core.rob.entry x).uop.exception = false ∧
      (((s.next conf i).front.core.rob.entry x).bsy = false ∨
        Forwards conf (s.next conf i) ((s.next conf i).front.core.rob.entry x).uop.seq) := by
  have ho := hh.ordered
  obtain ⟨hkept, hsince⟩ := (CoreIssue.wokenSince_next hh.wake.past).mp hwoken
  rcases hh.entry_next hx with ⟨w, rfl, hw, -, huop⟩ | ⟨hval, hkeep, -, huop⟩
  · -- what has just been dispatched was not woken up yet
    rw [huop] at hneeds hkept
    have hout := Core.handsOut_eq_true.mpr ⟨w, hw, hneeds, rfl⟩
    exact absurd hkept (ne_false_of_eq_true hout)
  have hneeds : (s.front.core.rob.entry x).uop.needsPreg = true := by
    rw [huop] at hneeds
    exact hneeds
  have hmem : (s.front.core.rob.entry x).uop ∈ s.front.core.rob.window :=
    mem_window.mpr ⟨x, hval, rfl⟩
  have hstate : s.front.core.rob.state ≠ .rollback := by
    intro hstate
    by_cases hnext : (s.next conf i).front.core.rob.state = .rollback
    · exact not_flushVal_of_rollback hstate (hroll hnext)
    · have hempty : (s.next conf i).front.core.rob.window = [] := ho.window_next_nil hstate hnext
      exact absurd (mem_window.mpr ⟨x, hx, rfl⟩) (by rw [hempty]; exact List.not_mem_nil)
  have hflush : s.front.core.rob.flushPipeline = false := by
    rw [← Bool.not_eq_true]
    intro hflush
    rcases ho.flushed hflush with hroll | hempty
    · exact hstate hroll
    · rw [hempty] at hmem
      cases hmem
  -- a micro-op of the back end that will write this register is that of the entry
  have hwriter {g : Stage N W} {u : ExeUop c} (hu : s.At g u) (hdst : u.kind.hasDst = true)
      (hpdst : u.pdst = (s.front.core.rob.entry x).uop.pdst) :
      u.seq = (s.front.core.rob.entry x).uop.seq ∧
        (s.front.core.rob.entry x).uop.exception = false := by
    have hseq := hv.seq_of_pdst hh hu hdst hval hneeds hpdst
    exact ⟨hseq, (hh.from_of_seq hu hval hseq).1.exception ▸ (hh.places.row _ _ hu).exception⟩
  rw [huop] at hsince ⊢
  show (s.front.core.rob.entry x).uop.exception = false ∧
    (_ ∨ Forwards conf (s.next conf i) (s.front.core.rob.entry x).uop.seq)
  rcases hsince with hwake | hold
  · rcases List.mem_append.mp hwake with hslow | hfast
    · -- it is being written
      obtain ⟨y, hy, hyp⟩ := List.mem_map.mp hslow
      obtain ⟨g, u, r, ha, hdst, hpdst, -⟩ := hh.of_mem_writePorts hy
      obtain ⟨hseq, hexc⟩ := hwriter ha.at_place hdst (hpdst.trans hyp)
      have hstore := (hh.places.row g u ha.at_place).not_store_of_dst hdst
      exact ⟨hexc, .inl (hh.bsy_next_of_answers ha hstore hval hseq)⟩
    · -- it is being issued
      obtain ⟨w, hw, hsome⟩ := List.mem_filterMap.mp hfast
      have hk : (conf.kinds w).hasAlu = true := (List.mem_filter.mp hw).2
      obtain ⟨u, hu, hpdst⟩ := Option.map_eq_some_iff.mp hsome
      obtain ⟨hiss, hcond⟩ := Option.filter_eq_some_iff.mp hu
      obtain ⟨-, hbypass⟩ := Bool.and_eq_true_iff.mp hcond
      have hkind : u.kind = .alu := of_decide_eq_true hbypass
      obtain ⟨k, hk', rfl⟩ := Option.map_eq_some_iff.mp hiss
      have hat : s.At (.slot k) (s.slotUop k) := ⟨(of_iss hk').1, rfl⟩
      have hdst : (s.slotUop k).kind.hasDst = true := by
        rw [hkind]
        rfl
      obtain ⟨hseq, hexc⟩ := hwriter hat hdst hpdst
      have hreg := exeReg_next.mpr ⟨k, hk', drops_of_stays hh hat hval hseq hflush hkeep, rfl⟩
      have hcode : (s.slotUop k).fuCode = FU_ALU := by
        rw [(hh.places.row _ _ hat).fuCode (HistoryOk.ne_nop_of_dst hdst), hkind]
        rfl
      exact ⟨hexc, .inr (.inl ⟨w, _, ExeUnitKind.aluReq_of_code hreg (.inl hcode) hk, hseq, hkind⟩)⟩
  · obtain ⟨hexc, hbsy | ⟨w, r, hr, hseq, hkind⟩ | ⟨w, u, d, hu, hseq, hkind⟩⟩ :=
      hv.woken (fun h => absurd h hstate) x hval hneeds hold
    · exact ⟨hexc, .inl (hh.bsy_next hval hbsy)⟩
    · -- it was in front of the ALU, and is in it now
      have hat : s.At (.exe w) r.uop := ⟨r, (ExeUnitKind.of_aluReq hr).1, rfl⟩
      have hdrop := drops_of_stays hh hat hval hseq hflush hkeep
      exact ⟨hexc, .inr
        (.inr ⟨w, _, _, ExeUnit.alu_next.mpr ⟨r, hr, hdrop, rfl, rfl⟩, hseq, hkind⟩)⟩
    · -- it was in the ALU, and is being written
      have hat : s.At (.alu w) u := ⟨d, hu⟩
      have hdrop := drops_of_stays hh hat hval hseq hflush hkeep
      have hstore : u.isStore = false :=
        (hh.places.row _ _ hat).not_store (by rw [hkind]; decide) (by rw [hkind]; decide)
      have ha := Answers.alu (i := i) (hh.places.suits _ _ hat).1 hu (drops_eq_false.mp hdrop).2
      exact ⟨hexc, .inl (hh.bsy_next_of_answers ha hstore hval hseq)⟩

/-- What waits for a register is older than whoever is given it next. -/
theorem sources_next (hvalid : ((s.next conf i).front.issue.slots k).slotValid = true)
    (hfix : ((s.next conf i).slotUop k).lrsRtype o = .fix)
    (hne : ((s.next conf i).slotUop k).pop o ≠ 0) (hle : ((s.next conf i).slotUop k).seq ≤ q) :
    ¬(logNext conf s i h).Writes q (((s.next conf i).slotUop k).pop o) := by
  have hat : (s.next conf i).At (.slot k) ((s.next conf i).slotUop k) := ⟨hvalid, rfl⟩
  intro hwrites
  rcases at_next hh.places.lt hat with ⟨k, w, b, -, henters, huop⟩ | ⟨g, u, hu, hdrop, huop, hgoes⟩
  · rw [huop] at hfix hne hle hwrites
    have hfrom := from_newUop henters
    rw [hfrom.pop o] at hne hwrites
    rcases hh.results.writes_next.mp hwrites with ⟨hlt, -⟩ | ⟨v, hw', rfl, hneeds, hpdst⟩
    · exact absurd ((seq_of_enters henters).1.trans hle) hlt.not_ge
    · rw [newUop_seq] at hle
      have hwv : w ≤ v := by
        rw [← not_lt, ← Core.seq_disUops_lt hw' henters.disMask]
        exact hle.not_gt
      exact hh.tables.not_pdst_of_pop henters.disMask (hfrom.rtype o hfix) hne hw' hneeds hwv hpdst
  · rw [huop] at hfix hne hle hwrites
    cases hgoes with
    | wait =>
      obtain ⟨hold, rfl⟩ := hu
      have hfix : (s.slotUop k).lrsRtype o = .fix := by cases o <;> exact hfix
      have hpop : ((s.slotUop k).resolve s.front.core.brinfo).pop o = (s.slotUop k).pop o := by
        cases o <;> rfl
      rw [hpop] at hne hwrites
      rcases hh.results.writes_next.mp hwrites with ⟨hlt, hw⟩ | ⟨v, hw', -, hneeds, hpdst⟩
      · exact hv.sources k o hold hfix hne q hle hlt hw
      · have hkept := hh.wake.backed.handsOut (i := s.input conf i) hh.ordered hh.tables hh.sources
          hold hfix
        have hout := Core.handsOut_eq_true.mpr ⟨v, hw', hneeds, hpdst⟩
        exact absurd hkept (ne_false_of_eq_true hout)

/-! ### Operands -/

/-- The last writer of what a waiting micro-op names is older than it. -/
theorem lastWriter_of_slot (hvalid : (s.front.issue.slots k).slotValid = true)
    (hfix : (s.slotUop k).lrsRtype o = .fix) (hne : (s.slotUop k).pop o ≠ 0)
    (hq : h.LastWriter s.front.core.count ((s.slotUop k).pop o) q) :
    h.LastWriter (s.slotUop k).seq ((s.slotUop k).pop o) q := by
  have hlt : (s.slotUop k).seq < s.front.core.count :=
    hh.places.lt (.slot k) _ ⟨hvalid, rfl⟩
  refine ⟨?_, hq.writes, fun q' hq' hlt' => hq.last q' hq' (hlt'.trans hlt)⟩
  rw [← not_le]
  intro hle
  exact hv.sources k o hvalid hfix hne q hle hq.lt hq.writes

/-- **Whoever is issued reads the result of the last writer.** -/
theorem operand_right {w : Fin W} (hk : s.iss conf i w = some k)
    (hdrop : s.drops (s.slotUop k) = false) (hfix : (s.slotUop k).lrsRtype o = .fix)
    (hne : (s.slotUop k).pop o ≠ 0) :
    ∃ q, h.LastWriter (s.slotUop k).seq ((s.slotUop k).pop o) q ∧
      (logNext conf s i h).produced q = some (s.operand conf i (s.slotUop k) o) := by
  have ho := hh.ordered
  obtain ⟨hvalid, hfirst, hsecond, hflush, -⟩ := of_iss hk
  have hat : s.At (.slot k) (s.slotUop k) := ⟨hvalid, rfl⟩
  have hready : (s.front.issue.slots k).ready o = true := by
    cases o
    · exact hfirst
    · exact hsecond
  have hwoken : h.wake.WokenSince ((s.slotUop k).pop o) :=
    ((hh.wake.slots k o hvalid).1 hfix).mp hready
  obtain ⟨x, hx, -, hfrom, -⟩ := hh.places.exists_entry ho hat hdrop
  have hmem : (s.front.core.rob.entry x).uop ∈ s.front.core.rob.window :=
    mem_window.mpr ⟨x, hx, rfl⟩
  have hfree : s.front.core.ren.freeList.freeList ((s.slotUop k).pop o) = false := by
    have hsrc := hh.sources _ hmem o (hfrom.rtype o hfix)
    rw [hfrom.pop o] at hne ⊢
    rw [hsrc] at hne ⊢
    exact hh.tables.freeList_mappedBefore ho hmem _ hne
  obtain ⟨q, hq⟩ := hv.writer _ hne hfree
  have hq' := hv.lastWriter_of_slot hh hvalid hfix hne hq
  refine ⟨q, hq', ?_⟩
  by_cases hin : ∃ y, (s.front.core.rob.entry y).val = true ∧
      (s.front.core.rob.entry y).uop.needsPreg = true ∧
        (s.front.core.rob.entry y).uop.pdst = (s.slotUop k).pop o
  · obtain ⟨y, hy, hneeds, hpdst⟩ := hin
    have hlast := hv.last y hy hneeds
    rw [hpdst] at hlast
    cases hq.unique hlast
    have hroll : s.front.core.rob.state = .rollback → s.front.core.rob.flushPipeline = true :=
      fun hroll => (hh.places.drained hroll hflush _ _ hat).elim
    obtain ⟨hexc, hbsy | ⟨v, r, hr, hseq, hkind⟩ | ⟨v, u, d, hu, hseq, hkind⟩⟩ :=
      hv.woken hroll y hy hneeds (hpdst ▸ hwoken)
    · -- it is in the register file
      have hquiet := hv.quiet_of_done hh hy hneeds hbsy
      rw [hpdst] at hquiet
      rw [HistoryOk.operand_of_quiet hh hne hquiet, ← hpdst]
      exact produced_next_of_some (hv.done y hy hneeds hexc hbsy)
    · -- it is being computed
      have hexe : s.At (.exe v) r.uop := ⟨r, (ExeUnitKind.of_aluReq hr).1, rfl⟩
      have hpdst' := (hh.from_of_seq hexe hy hseq).1.pdst.trans hpdst
      have hwen : r.uop.kind.rfWen = true := by
        rw [hkind]
        rfl
      have hm : Makes conf s i (.exe v) r.uop (r.aluOut (i.currPc v)) :=
        .alu hr rfl hwen (by rw [hkind]; decide)
      rw [hv.operand_of_offers hh (.exe hr rfl) hwen hfix hne hpdst', ← hseq]
      refine hh.places.produced_next_of_makes ho (hh.results.unmade _ _ hexe hm.hasDst ?_) hm
      intro w hw
      cases hw
    · -- it was computed in the last cycle
      have halu : s.At (.alu v) u := ⟨d, hu⟩
      have hfrom' := (hh.from_of_seq halu hy hseq).1
      have hkill : isKilledByBranch s.front.core.brinfo u.brMask = false := by
        -- what kills it kills whoever waits for it
        rw [← Bool.not_eq_true, hfrom'.brMask, ho.killed_iff (mem_window.mpr ⟨y, hy, rfl⟩)]
        rintro ⟨b, hb, hlt⟩
        have hlt' : b.seq < (s.front.core.rob.entry x).uop.seq := by
          rw [← hfrom.seq]
          exact hlt.trans hq'.lt
        have hkill := (drops_eq_false.mp hdrop).2
        rw [hfrom.brMask, (ho.killed_iff hmem).mpr ⟨b, hb, hlt'⟩] at hkill
        cases hkill
      have hwen : u.kind.rfWen = true := by
        rw [hkind]
        rfl
      have hoff := Offers.alu (i := i) (hh.places.suits _ _ halu).1 hu hkill
      rw [hv.operand_of_offers hh hoff hwen hfix hne (hfrom'.pdst.trans hpdst), ← hseq]
      exact produced_next_of_some (hh.results.alu v u d hu hwen (by rw [hkind]; decide))
  · have hno : ∀ y, (s.front.core.rob.entry y).val = true →
        (s.front.core.rob.entry y).uop.needsPreg = true →
          (s.front.core.rob.entry y).uop.pdst ≠ (s.slotUop k).pop o :=
      fun y hy hneeds hpdst => hin ⟨y, hy, hneeds, hpdst⟩
    rw [HistoryOk.operand_of_quiet hh hne (quiet_of_settled hh hne hno)]
    exact produced_next_of_some (hv.settled _ q hne hfree hno hq)

/-- **The values are right after every cycle.** -/
theorem next :
    ValuesOk conf (s.next conf i) (logNext conf s i h) where
  last _ hx hneeds := hv.last_next hh hx hneeds
  writer _ hp hfree := hv.writer_next hh hp hfree
  settled _ _ hp hfree hno hq := hv.settled_next hh hp hfree hno hq
  done _ hx hneeds hexc hbsy := hv.done_next hh hx hneeds hexc hbsy
  woken hroll _ hx hneeds hwoken := hv.woken_next hh hroll hx hneeds hwoken
  sources _ _ hvalid hfix hne _ hle _ := hv.sources_next hh hvalid hfix hne hle

end

end ValuesOk

/-- What is in front of a unit has read the right values. -/
def OperandsOk (s : Backend c N W) (h : BackendLog c N W) : Prop :=
  ∀ w r o, s.exeReg w = some r → r.uop.lrsRtype o = .fix →
    (r.uop.pop o = 0 ∧ r.data o = 0) ∨ (r.uop.pop o ≠ 0 ∧
      ∃ q, h.LastWriter r.uop.seq (r.uop.pop o) q ∧ h.produced q = some (r.data o))

theorem ValuesOk.operandsOk_next (hv : ValuesOk conf s h) (hh : HistoryOk conf s h) :
    OperandsOk (s.next conf i) (logNext conf s i h) := by
  intro w r o hr hfix
  obtain ⟨k, hk, hdrop, rfl⟩ := exeReg_next.mp hr
  have hfix : (s.slotUop k).lrsRtype o = .fix := by cases o <;> exact hfix
  have hpop : ((s.slotUop k).resolve s.front.core.brinfo).pop o = (s.slotUop k).pop o := by
    cases o <;> rfl
  have hdata : (⟨(s.slotUop k).resolve s.front.core.brinfo,
      s.operand conf i (s.slotUop k) .first, s.operand conf i (s.slotUop k) .second⟩ :
        ExeReq c).data o = s.operand conf i (s.slotUop k) o := by
    cases o <;> rfl
  rw [hdata]
  show ((s.slotUop k).resolve s.front.core.brinfo).pop o = 0 ∧ _ ∨
    ((s.slotUop k).resolve s.front.core.brinfo).pop o ≠ 0 ∧ ∃ q,
      (logNext conf s i h).LastWriter (s.slotUop k).seq
        (((s.slotUop k).resolve s.front.core.brinfo).pop o) q ∧ _
  rw [hpop]
  by_cases hne : (s.slotUop k).pop o = 0
  · exact .inl ⟨hne, HistoryOk.operand_zero hne⟩
  · obtain ⟨q, hq, hproduced⟩ := hv.operand_right hh hk hdrop hfix hne
    have hlt : (s.slotUop k).seq < s.front.core.count :=
      hh.places.lt (.slot k) _ ⟨(of_iss hk).1, rfl⟩
    exact .inr ⟨hne, q, (hh.results.lastWriter_next_of_le hlt.le).mpr hq, hproduced⟩

end Backend

end RiscvSoc
