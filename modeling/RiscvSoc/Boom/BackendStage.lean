import RiscvSoc.Boom.Backend

/-!
# Where a micro-op is

A micro-op that was dispatched waits in a slot, is issued, gets to a functional unit and leaves when
it has written its result. Here this way is taken apart into single moves, and the history variable
that says where each micro-op is, is shown to follow them.
-/

namespace RiscvSoc

open IssueUnit

variable {c : BOOMConf} {N W : ℕ} [NeZero W]

namespace Backend

/-- Micro-op `u` is at `g`. -/
def At (s : Backend c N W) : Stage N W → ExeUop c → Prop
  | .slot k, u => (s.front.issue.slots k).slotValid = true ∧ s.slotUop k = u
  | .exe w, u => ∃ r, s.exeReg w = some r ∧ r.uop = u
  | .alu w, u => ∃ d, (s.units w).alu = some (u, d)
  | .mulDiv w, u => (s.units w).mulDiv.state ≠ .sReady ∧ (s.units w).mulDivUop = u
  | .load w, u => u ∈ (s.units w).loads
  | .gone, _ => False

section Moves

variable (conf : BackendConf c W) (s : Backend c N W) (i : BackendInput c W)

/-- Unless it is dropped, micro-op `u` goes from one place to another. -/
inductive Goes (u : ExeUop c) : Stage N W → Stage N W → Prop
  | wait {k : Fin N} (h : ∀ w, s.iss conf i w ≠ some k) : Goes u (.slot k) (.slot k)
  | issue {w : Fin W} {k : Fin N} (h : s.iss conf i w = some k) : Goes u (.slot k) (.exe w)
  | alu {w : Fin W} {r : ExeReq c} (h : (conf.kinds w).aluReq (s.exeReg w) = some r)
      (hu : r.uop = u) : Goes u (.exe w) (.alu w)
  | start {w : Fin W} {r : ExeReq c}
      (h : (s.units w).mulDivFire (conf.kinds w) (s.unitInput i w) = some r) (hu : r.uop = u) :
      Goes u (.exe w) (.mulDiv w)
  | send {w : Fin W} (h : ExeUnit.newLoad (conf.kinds w) (s.unitInput i w) = some u) :
      Goes u (.exe w) (.load w)
  | work {w : Fin W} (h : (s.units w).mulDiv.respValid = true →
      (s.units w).mulDivReady (conf.kinds w) (s.unitInput i w) = false) :
      Goes u (.mulDiv w) (.mulDiv w)
  | pend {w : Fin W} (h : u ∈ (s.units w).waiting (s.unitInput i w)) : Goes u (.load w) (.load w)

/-- What lane `w` writes to a slot. -/
def newUop (w : Bank c) (b : Bool) : ExeUop c :=
  ⟨(s.front.disUops (s.input conf i) w).half b, (i.decs w).info⟩

/-- Lane `w` writes a half of its micro-op to slot `k`. -/
def Enters (k : Fin N) (w : Bank c) (b : Bool) : Prop :=
  s.front.issue.writes (s.front.issueInput (s.input conf i)) k w b = true

end Moves

variable {conf : BackendConf c W} {s : Backend c N W} {i : BackendInput c W}

/-! ### What the issue unit passes on -/

variable {k : Fin N} {w : Bank c} {b : Bool}

theorem Enters.disMask (h : s.Enters conf i k w b) :
    s.front.core.disMask (s.coreInput conf i) w = true :=
  (writes_eq_true.mp h).1

theorem half_seq (u : IssueUop c) (b : Bool) : (u.half b).seq = u.seq := by
  rw [IssueUop.half]
  cases b <;> split <;> rfl

theorem newUop_seq (w : Bank c) (b : Bool) :
    (s.newUop conf i w b).seq = (s.front.core.disUops (s.coreInput conf i) w).seq :=
  half_seq (s.front.disUops (s.input conf i) w) b

theorem nextInfo_of_lt {q : ℕ} (hq : q < s.front.core.count) :
    s.nextInfo conf i q = s.info q := by
  rw [nextInfo, laneOf, Core.find?_disSlots_of_lt hq]

theorem laneOf_of_disMask (hw : s.front.core.disMask (s.coreInput conf i) w = true) :
    s.laneOf conf i (s.front.core.disUops (s.coreInput conf i) w).seq = some w :=
  Core.find?_disSlots hw

theorem slotUop_of_enters (h : s.Enters conf i k w b) :
    (s.next conf i).slotUop k = s.newUop conf i w b := by
  have huop : ((s.next conf i).front.issue.slots k).slotUop =
      (s.front.disUops (s.input conf i) w).half b :=
    (next_of_writes CoreIssue.dispatches h).2
  have hinfo : s.nextInfo conf i (s.newUop conf i w b).seq = (i.decs w).info := by
    rw [newUop_seq, nextInfo, laneOf_of_disMask h.disMask]
  rw [slotUop, huop, newUop]
  congr

theorem seq_of_enters (h : s.Enters conf i k w b) :
    s.front.core.count ≤ (s.newUop conf i w b).seq ∧
      (s.newUop conf i w b).seq < (s.next conf i).front.core.count := by
  rw [newUop_seq]
  exact Core.seq_newUops (Core.mem_newUops.mpr ⟨w, h.disMask, rfl⟩)

/-! ### Moves -/

theorem of_iss {w : Fin W} (h : s.iss conf i w = some k) :
    (s.front.issue.slots k).slotValid = true ∧ (s.front.issue.slots k).slotP1 = true ∧
      (s.front.issue.slots k).slotP2 = true ∧ s.front.core.rob.flushPipeline = false ∧
      (s.front.issue.slots k).slotUop.fuCode &&&
        (s.units w).fuTypes (conf.kinds w) (decide (w = 0)) (s.exeReg w) ≠ 0 := by
  obtain ⟨hreq, hcan⟩ := selection_satisfies.asked w k h
  simp only [request, Bool.and_eq_true, Bool.not_eq_true'] at hreq
  exact ⟨hreq.1.1.1, hreq.1.1.2, hreq.1.2, hreq.2, of_decide_eq_true hcan⟩

theorem iss_once {v w : Fin W} (hv : s.iss conf i v = some k)
    (hw : s.iss conf i w = some k) : v = w :=
  selection_satisfies.once v w k hv hw

theorem exeReg_next {w : Fin W} {r : ExeReq c} : (s.next conf i).exeReg w = some r ↔
    ∃ k, s.iss conf i w = some k ∧ s.drops (s.slotUop k) = false ∧
      r = ⟨(s.slotUop k).resolve s.front.core.brinfo, s.operand conf i (s.slotUop k) .first,
        s.operand conf i (s.slotUop k) .second⟩ := by
  show (s.issUops conf i w).bind _ = some r ↔ _
  rw [Option.bind_eq_some_iff, issUops]
  constructor
  · rintro ⟨u, hu, hr⟩
    obtain ⟨k, hk, rfl⟩ := Option.map_eq_some_iff.mp hu
    cases hdrop : s.drops (s.slotUop k) with
    | true =>
      rw [hdrop] at hr
      cases hr
    | false =>
      rw [hdrop] at hr
      cases hr
      exact ⟨k, hk, hdrop, rfl⟩
  · rintro ⟨k, hk, hdrop, rfl⟩
    exact ⟨_, Option.map_eq_some_iff.mpr ⟨k, hk, rfl⟩, by rw [hdrop]; rfl⟩

theorem slotUop_next (hlt : (s.slotUop k).seq < s.front.core.count)
    (hwriter : s.front.issue.writer (s.front.issueInput (s.input conf i)) k = none)
    (hkilled : s.front.issue.killed (s.front.issueInput (s.input conf i)) k = false)
    (hissue : (s.front.issue.selection conf.hp
      (s.front.issueInput (s.input conf i))).issue k = false) :
    (s.next conf i).slotUop k = (s.slotUop k).resolve s.front.core.brinfo := by
  have huop : ((s.next conf i).front.issue.slots k).slotUop =
      { (s.front.issue.slots k).slotUop with
        brMask := getNewBrMask s.front.core.brinfo (s.front.issue.slots k).slotUop.brMask } :=
    uop_of_not_writes hwriter hkilled hissue
  have hinfo : s.nextInfo conf i (s.slotUop k).seq = s.info (s.slotUop k).seq := nextInfo_of_lt hlt
  rw [slotUop, huop]
  exact congrArg _ hinfo

/-- **Where a micro-op is after a cycle.** It was just dispatched to a slot, or it was somewhere
before, was not dropped and has moved. -/
theorem at_next (hlt : ∀ g u, s.At g u → u.seq < s.front.core.count) {g' : Stage N W}
    {v : ExeUop c} (h : (s.next conf i).At g' v) :
    (∃ k w b, g' = .slot k ∧ s.Enters conf i k w b ∧ v = s.newUop conf i w b) ∨
      ∃ g u, s.At g u ∧ s.drops u = false ∧ v = u.resolve s.front.core.brinfo ∧
        s.Goes conf i u g g' := by
  cases g' with
  | slot k =>
    obtain ⟨hvalid, rfl⟩ := h
    rcases of_valid_next hvalid with ⟨w, b, hw⟩ | ⟨hwriter, hold, hkilled, hissue⟩
    · exact .inl ⟨k, w, b, rfl, hw, slotUop_of_enters hw⟩
    · have hat : s.At (.slot k) (s.slotUop k) := ⟨hold, rfl⟩
      refine .inr ⟨_, _, hat, hkilled, slotUop_next (hlt _ _ hat) hwriter hkilled hissue, .wait ?_⟩
      intro w hw
      have hiss := (selection_satisfies.issue_iff k).mpr ⟨w, hw⟩
      exact Bool.false_ne_true (hissue.symm.trans hiss)
  | exe w =>
    obtain ⟨r, hr, rfl⟩ := h
    obtain ⟨k, hk, hdrop, rfl⟩ := exeReg_next.mp hr
    exact .inr ⟨.slot k, _, ⟨(of_iss hk).1, rfl⟩, hdrop, rfl, .issue hk⟩
  | alu w =>
    obtain ⟨d, hd⟩ := h
    obtain ⟨r, hr, hdrop, rfl, -⟩ := ExeUnit.alu_next.mp hd
    have hreg := (ExeUnitKind.of_aluReq hr).1
    exact .inr ⟨.exe w, r.uop, ⟨r, hreg, rfl⟩, hdrop, rfl, .alu hr rfl⟩
  | mulDiv w =>
    obtain ⟨hstate, rfl⟩ := h
    rcases ExeUnit.of_mulDiv_next hstate with ⟨r, hr, hdrop, huop⟩ | ⟨hbusy, hdrop, hwait, huop⟩
    · have hreg := (ExeUnitKind.of_mulDivReq (ExeUnit.mulDivFire_eq_some.mp hr).2).1
      exact .inr ⟨.exe w, r.uop, ⟨r, hreg, rfl⟩, hdrop, huop, .start hr rfl⟩
    · exact .inr ⟨.mulDiv w, _, ⟨hbusy, rfl⟩, hdrop, huop, .work hwait⟩
  | load w =>
    obtain ⟨u, hu | hu, hdrop, rfl⟩ := ExeUnit.mem_loads_next.mp h
    · exact .inr ⟨.load w, u, ExeUnit.mem_of_waiting hu, hdrop, rfl, .pend hu⟩
    · obtain ⟨r, hr, rfl, -⟩ := ExeUnit.newLoad_eq_some.mp hu
      exact .inr ⟨.exe w, r.uop, ⟨r, (ExeUnitKind.of_memReq hr).1, rfl⟩, hdrop, rfl, .send hu⟩
  | gone => exact h.elim

/-! ### The history follows -/

theorem newUop_key (h : s.Enters conf i k w b) :
    (s.newUop conf i w b).key =
      ((s.front.core.disUops (s.coreInput conf i) w).seq, b) := by
  obtain ⟨-, hneeds, -⟩ := writes_eq_true.mp h
  refine Prod.ext (newUop_seq w b) ?_
  show decide (((s.front.disUops (s.input conf i) w).half b).uopc = .std) = b
  cases b with
  | true =>
    have hsta : (s.front.disUops (s.input conf i) w).uopc = .sta :=
      of_decide_eq_true (Bool.and_eq_true_iff.mp hneeds).1
    rw [IssueUop.half, if_pos hsta]
    rfl
  | false =>
    refine decide_eq_false ?_
    rw [IssueUop.half]
    split
    · intro hstd
      have heq : (s.front.disUops (s.input conf i) w).uopc = .std := hstd
      rw [‹(s.front.disUops (s.input conf i) w).uopc = .sta›] at heq
      cases heq
    · exact (i.decs w).not_std.1

theorem enters_of_writer
    (h : (s.front.issue.writer (s.front.issueInput (s.input conf i)) k).isSome = true) :
    ∃ w b, s.Enters conf i k w b := by
  obtain ⟨⟨w, b⟩, hw⟩ := Option.isSome_iff_exists.mp h
  exact ⟨w, b, writer_eq_some.mp hw⟩

/-- What was dispatched before does not enter a slot again. -/
theorem entersSlot_of_lt {x : ℕ × Bool} (hx : x.1 < s.front.core.count) :
    s.entersSlot conf i x = none := by
  rw [entersSlot, List.find?_eq_none]
  intro k _ hk
  obtain ⟨hwriter, hkey⟩ := Bool.and_eq_true_iff.mp hk
  obtain ⟨w, b, henters⟩ := enters_of_writer hwriter
  rw [decide_eq_true_eq, slotUop_of_enters henters] at hkey
  have hle := (seq_of_enters henters).1
  rw [← hkey] at hx
  exact lt_irrefl _ (hle.trans_lt hx)

theorem entersSlot_of_enters (h : s.Enters conf i k w b) :
    s.entersSlot conf i (s.newUop conf i w b).key = some k := by
  have hself : (s.front.issue.writer (s.front.issueInput (s.input conf i)) k).isSome &&
      decide (((s.next conf i).slotUop k).key = (s.newUop conf i w b).key) := by
    rw [writer_of_writes h, slotUop_of_enters h, decide_eq_true rfl]
    rfl
  rw [entersSlot]
  cases hfind : (List.finRange N).find? fun k =>
      (s.front.issue.writer (s.front.issueInput (s.input conf i)) k).isSome &&
        decide (((s.next conf i).slotUop k).key = (s.newUop conf i w b).key) with
  | none => exact absurd hself (List.find?_eq_none.mp hfind k (List.mem_finRange k))
  | some k' =>
    have hsat := List.find?_some hfind
    obtain ⟨hwriter, hkey⟩ := Bool.and_eq_true_iff.mp hsat
    obtain ⟨w', b', h'⟩ := enters_of_writer hwriter
    rw [decide_eq_true_eq, slotUop_of_enters h', newUop_key h', newUop_key h] at hkey
    obtain ⟨hseq, rfl⟩ := Prod.mk.inj hkey
    have hlane : w' = w := by
      refine le_antisymm ?_ ?_
      · exact not_lt.mp fun hlt =>
          ((Core.seq_disUops_lt h.disMask h'.disMask).mpr hlt).ne hseq.symm
      · exact not_lt.mp fun hlt => ((Core.seq_disUops_lt h'.disMask h.disMask).mpr hlt).ne hseq
    subst hlane
    have hentry := (writes_eq_true.mp h).2.2
    exact (writes_eq_true.mp h').2.2.symm.trans hentry

variable {h : BackendLog c N W}

theorem nextStage_of_enters {k : Fin N} {w : Bank c} {b : Bool} (henters : s.Enters conf i k w b) :
    s.nextStage conf i h (s.newUop conf i w b).key = .slot k := by
  rw [nextStage, entersSlot_of_enters henters]

/-- **The history follows every move.** -/
theorem nextStage_of_goes {u : ExeUop c} {g g' : Stage N W} (hlt : u.seq < s.front.core.count)
    (hload : u.kind = .load → u.fuCode = FU_MEM) (hstage : h.stage u.key = g)
    (hgoes : s.Goes conf i u g g') : s.nextStage conf i h u.key = g' := by
  rw [nextStage, entersSlot_of_lt hlt, hstage]
  cases hgoes with
  | @wait k hk =>
    have hnone : ((List.finRange W).find? fun w => decide (s.iss conf i w = some k)) = none := by
      rw [List.find?_eq_none]
      intro w _
      rw [decide_eq_true_eq]
      exact hk w
    simp only [hnone]
  | @issue w k hk =>
    cases hfind : (List.finRange W).find? fun w => decide (s.iss conf i w = some k) with
    | none =>
      have hno := List.find?_eq_none.mp hfind w (List.mem_finRange w)
      rw [decide_eq_true_eq] at hno
      exact absurd hk hno
    | some w' =>
      have hsat := List.find?_some hfind
      cases iss_once (of_decide_eq_true hsat) hk
      simp only [hfind]
  | @alu w r hr hu => simp only [hr, Option.isSome_some, if_true]
  | @start w r hr hu =>
    have hmul : (conf.kinds w).mulDivReq (s.exeReg w) = some r :=
      (ExeUnit.mulDivFire_eq_some.mp hr).2
    simp only [ExeUnitKind.aluReq_of_mulDivReq hmul, hmul, Option.isSome_none, Option.isSome_some,
      Bool.false_eq_true, if_false, if_true]
  | @send w hu =>
    obtain ⟨r, hr, rfl, hkind⟩ := ExeUnit.newLoad_eq_some.mp hu
    obtain ⟨hreg, hmem⟩ := ExeUnitKind.of_memReq hr
    have hreg : s.exeReg w = some r := hreg
    obtain ⟨halu, hmul⟩ := ExeUnitKind.aluReq_of_mem hmem (hload hkind)
    simp only [hreg, halu, hmul, Option.isSome_none, Bool.false_eq_true, if_false]
  | @work w hwait =>
    have hstays : ((s.units w).mulDiv.respValid &&
        (s.units w).mulDivReady (conf.kinds w) (s.unitInput i w)) = false := by
      cases hvalid : (s.units w).mulDiv.respValid with
      | true => rw [hwait hvalid, Bool.and_false]
      | false => rfl
    simp only [hstays, Bool.false_eq_true, if_false]
  | @pend w hu =>
    have hany : ((s.units w).waiting (s.unitInput i w)).any
        (fun v => decide (v.key = u.key)) = true :=
      List.any_eq_true.mpr ⟨u, hu, decide_eq_true rfl⟩
    simp only [hany, if_true]

end Backend

end RiscvSoc
