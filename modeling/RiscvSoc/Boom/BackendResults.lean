import RiscvSoc.Boom.BackendMoves

/-!
# Results

What the units compute in a cycle, and how the history notes it. A micro-op has one result, and once
it is noted it stays. From the other side, the history says which micro-op was the last one that was
renamed to write a register.
-/

namespace RiscvSoc

variable {c : BOOMConf} {N W : ℕ}

theorem ExeKind.hasDst_of_rfWen {k : ExeKind} (h : k.rfWen = true) : k.hasDst = true := by
  cases k <;> first | rfl | cases h

namespace BackendLog

variable {h : BackendLog c N W} {n : ℕ} {p : PReg c} {q q' : ℕ}

theorem LastWriter.unique (hq : h.LastWriter n p q) (hq' : h.LastWriter n p q') : q = q' := by
  rcases lt_trichotomy q q' with hlt | heq | hlt
  · exact absurd hq'.writes (hq.last q' hlt hq'.lt)
  · exact heq
  · exact absurd hq.writes (hq'.last q hlt hq.lt)

end BackendLog

namespace Backend

variable [NeZero W] {conf : BackendConf c W} {s : Backend c N W} {i : BackendInput c W}
  {h : BackendLog c N W}

/-! ### The results of a cycle -/

/-- What is at `g` gets result `d`. -/
inductive Makes (conf : BackendConf c W) (s : Backend c N W) (i : BackendInput c W) :
    Stage N W → ExeUop c → Word → Prop
  | alu {w : Fin W} {u : ExeUop c} {r : ExeReq c}
      (hr : (conf.kinds w).aluReq (s.exeReg w) = some r) (hu : r.uop = u)
      (hwen : u.kind.rfWen = true) (hcsr : u.kind ≠ .csr) :
      Makes conf s i (.exe w) u (r.aluOut (i.currPc w))
  | answer {g : Stage N W} {u : ExeUop c} {r : ExeResp c} (ha : Answers conf s i g u r)
      (hkind : u.kind = .csr ∨ u.kind = .mulDiv ∨ u.kind = .load) : Makes conf s i g u r.data

namespace Makes

variable {g : Stage N W} {u : ExeUop c} {d d' : Word}

theorem at_place (hm : Makes conf s i g u d) : s.At g u := by
  cases hm with
  | alu hr hu => exact ⟨_, (ExeUnitKind.of_aluReq hr).1, hu⟩
  | answer ha => exact ha.at_place

theorem hasDst (hm : Makes conf s i g u d) : u.kind.hasDst = true := by
  cases hm with
  | alu _ _ hwen => exact ExeKind.hasDst_of_rfWen hwen
  | answer _ hkind =>
    rcases hkind with hkind | hkind | hkind <;>
      · rw [hkind]
        rfl

theorem unique (hm : Makes conf s i g u d) (hm' : Makes conf s i g u d') : d = d' := by
  cases hm with
  | alu hr =>
    cases hm' with
    | alu hr' =>
      cases hr.symm.trans hr'
      rfl
    | answer ha => cases ha
  | answer ha =>
    cases hm' with
    | alu => cases ha
    | answer ha' => rw [ha.unique ha']

end Makes

namespace PlacesOk

variable {g g' : Stage N W} {u v : ExeUop c} {r : ExeResp c}

/-- **Every answer is on a write port.** -/
theorem mem_responses_of_answers (hp : PlacesOk conf s h) (ha : Answers conf s i g u r) :
    r ∈ s.responses conf i := by
  have hsuits := hp.suits g u ha.at_place
  -- a port that is not that of the ALU passes on what it is given
  have hport {w : Fin W} (hmem : some r ∈ (s.units w).ports (conf.kinds w) (s.unitInput i w))
      (hcsr : r.uop.kind ≠ .csr) : r ∈ s.responses conf i := by
    obtain ⟨j, hj⟩ := List.mem_iff_getElem?.mp hmem
    exact mem_responses.mpr ⟨w, mem_portsOf.mpr ⟨j, r, hj, wbData_of_ne hcsr⟩⟩
  have hkind := ha.kind
  cases ha with
  | @alu w u d hk hu hkill =>
    have hresp := ExeUnit.aluResp_eq_some (i := s.unitInput i w).mpr ⟨u, d, hu, hkill, rfl⟩
    exact mem_responses.mpr
      ⟨w, mem_portsOf.mpr ⟨0, _, ExeUnit.ports_getElem_zero hk hresp, rfl⟩⟩
  | mulDiv hr hready =>
    refine hport (ExeUnit.mulDivResp_mem_ports hsuits.1 hr hready) ?_
    rw [hkind]
    rcases hsuits.2 with h | h <;>
      · rw [h]
        decide
  | @load w n d u hmem hu =>
    have hresp : (s.units w).memResp (s.unitInput i w) = some ⟨u, d, true, .fix⟩ :=
      ExeUnit.memResp_eq_some.mpr ⟨n, d, u, hmem, hu, rfl⟩
    refine hport (ExeUnit.memResp_mem_ports hsuits.1 hresp) ?_
    rw [hkind, hsuits.2]
    decide

theorem clearsBsy_of_answers (hp : PlacesOk conf s h) (ha : Answers conf s i g u r)
    (hstore : u.isStore = false) :
    (s.front.core.robInput (s.coreInput conf i)).clearsBsy (robSlot u.robIdx) = true := by
  rw [RobInput.clearsBsy, Bool.or_eq_true, List.any_eq_true]
  refine .inl ⟨r.uop.robIdx, List.mem_map.mpr ⟨r, ?_, rfl⟩, decide_eq_true ?_⟩
  · refine List.mem_filter.mpr ⟨hp.mem_responses_of_answers ha, ?_⟩
    rw [ha.isStore, hstore]
    rfl
  · rw [ha.robIdx]

/-- **The results of a cycle.** -/
theorem mem_produces (hp : PlacesOk conf s h) {q : ℕ} {d : Word} :
    (q, d) ∈ s.produces conf i ↔ ∃ g u, Makes conf s i g u d ∧ u.seq = q := by
  rw [produces, List.mem_append, List.mem_flatMap, List.mem_map]
  constructor
  · rintro (⟨w, -, hw⟩ | ⟨r, hr, heq⟩)
    · obtain ⟨r, hr, heq⟩ := List.mem_map.mp hw
      obtain ⟨halu, hwen⟩ := Option.filter_eq_some_iff.mp (Option.mem_toList.mp hr)
      obtain ⟨hwen, hcsr⟩ := Bool.and_eq_true_iff.mp hwen
      cases heq
      exact ⟨_, _, .alu halu rfl hwen (of_decide_eq_true hcsr), rfl⟩
    · obtain ⟨hr, hkind⟩ := List.mem_filter.mp hr
      obtain ⟨g, u, ha⟩ := hp.exists_answers hr
      rw [decide_eq_true_eq, ha.kind] at hkind
      cases heq
      exact ⟨g, u, .answer ha hkind, ha.seq.symm⟩
  · rintro ⟨g, u, hm, rfl⟩
    cases hm with
    | @alu w u r hr hu hwen hcsr =>
      subst hu
      refine .inl ⟨w, List.mem_finRange w, List.mem_map.mpr ⟨r, ?_, rfl⟩⟩
      refine Option.mem_toList.mpr (Option.filter_eq_some_iff.mpr ⟨hr, ?_⟩)
      rw [hwen, decide_eq_true hcsr]
      rfl
    | @answer g u r ha hkind =>
      refine .inr ⟨r, List.mem_filter.mpr ⟨hp.mem_responses_of_answers ha, ?_⟩, ?_⟩
      · rw [decide_eq_true_eq, ha.kind]
        exact hkind
      · rw [ha.seq]

end PlacesOk

theorem logNext_produced (q : ℕ) : (logNext conf s i h).produced q = (h.produced q).or
    (((s.produces conf i).find? fun x => decide (x.1 = q)).map Prod.snd) := rfl

theorem produced_next_of_some {q : ℕ} {d : Word} (hd : h.produced q = some d) :
    (logNext conf s i h).produced q = some d := by
  rw [logNext_produced, hd]
  rfl

namespace PlacesOk

variable {g g' : Stage N W} {u v : ExeUop c} {d : Word} {q : ℕ}

theorem produced_next_of_none (hp : PlacesOk conf s h) (hd : h.produced q = none)
    (hno : ∀ g u d, Makes conf s i g u d → u.seq ≠ q) :
    (logNext conf s i h).produced q = none := by
  rw [logNext_produced, hd, Option.none_or, Option.map_eq_none_iff, List.find?_eq_none]
  rintro ⟨q', d⟩ hmem
  obtain ⟨g, u, hm, rfl⟩ := hp.mem_produces.mp hmem
  rw [decide_eq_true_eq]
  exact hno g u d hm

/-- **A result is noted.** -/
theorem produced_next_of_makes (hp : PlacesOk conf s h) (ho : s.front.core.Ordered)
    (hd : h.produced u.seq = none) (hm : Makes conf s i g u d) :
    (logNext conf s i h).produced u.seq = some d := by
  rw [logNext_produced, hd, Option.none_or]
  cases hfind : (s.produces conf i).find? fun x => decide (x.1 = u.seq) with
  | none =>
    have hno := List.find?_eq_none.mp hfind _ (hp.mem_produces.mpr ⟨g, u, hm, rfl⟩)
    exact absurd (decide_eq_true rfl) hno
  | some x =>
    obtain ⟨q, d'⟩ := x
    have hq := List.find?_some hfind
    obtain ⟨g', v, hm', hv⟩ := hp.mem_produces.mp (List.mem_of_find?_eq_some hfind)
    have hseq : u.seq = v.seq := (of_decide_eq_true hq).symm.trans hv.symm
    obtain ⟨rfl, rfl⟩ := hp.eq_of_seq ho hm.at_place hm'.at_place hseq
      ((hp.row g u hm.at_place).not_store_of_dst hm.hasDst)
    rw [hm.unique hm']
    rfl

end PlacesOk

/-! ### Who has a result -/

structure ResultsOk (s : Backend c N W) (h : BackendLog c N W) : Prop where
  undispatched : ∀ q, s.front.core.count ≤ q → h.dispatched q = none
  future : ∀ q, s.front.core.count ≤ q → h.produced q = none
  /-- Only the ALU keeps a result. -/
  unmade : ∀ g u, s.At g u → u.kind.hasDst = true → (∀ w, g = .alu w → u.kind = .csr) →
    h.produced u.seq = none
  alu : ∀ w u d, (s.units w).alu = some (u, d) → u.kind.rfWen = true → u.kind ≠ .csr →
    h.produced u.seq = some d

namespace ResultsOk

variable {g g' : Stage N W} {u v : ExeUop c} {d : Word} {q : ℕ} {p : PReg c}

/-- What moves on, and not out of the ALU, gets no result unless it is going there. -/
theorem not_makes_of_goes (hp : PlacesOk conf s h) (ho : s.front.core.Ordered) (hu : s.At g u)
    (hgoes : s.Goes conf i u g g') (hdst : u.kind.hasDst = true)
    (halu : ∀ w, g' = .alu w → u.kind = .csr) {g₁ : Stage N W} (hm : Makes conf s i g₁ v d) :
    v.seq ≠ u.seq := by
  intro hseq
  obtain ⟨rfl, rfl⟩ := hp.eq_of_seq ho hu hm.at_place hseq.symm
    ((hp.row g u hu).not_store_of_dst hdst)
  cases hm with
  | alu hr _ hwen hcsr =>
    cases hgoes with
    | alu => exact hcsr (halu _ rfl)
    | start hr' =>
      have hnone := ExeUnitKind.aluReq_of_mulDivReq (ExeUnit.mulDivFire_eq_some.mp hr').2
      cases hr.symm.trans hnone
    | send hload =>
      obtain ⟨-, -, -, hkind⟩ := ExeUnit.newLoad_eq_some.mp hload
      rw [hkind] at hwen
      cases hwen
  | answer ha => exact hp.not_goes_of_answers ha hgoes

theorem unmade_next (hr : ResultsOk s h) (hp : PlacesOk conf s h) (ho : s.front.core.Ordered)
    (hv : (s.next conf i).At g' v) (hdst : v.kind.hasDst = true)
    (halu : ∀ w, g' = .alu w → v.kind = .csr) :
    (logNext conf s i h).produced v.seq = none := by
  rcases at_next hp.lt hv with ⟨k, w, b, -, henters, rfl⟩ | ⟨g, u, hu, -, rfl, hgoes⟩
  · have hle := (seq_of_enters henters).1
    refine hp.produced_next_of_none (hr.future _ hle) ?_
    intro g u d hm
    exact ((hp.lt g u hm.at_place).trans_le hle).ne
  · refine hp.produced_next_of_none (hr.unmade g u hu hdst ?_) ?_
    · rintro w rfl
      cases hgoes
    · intro g₁ v d hm
      have hne : v.seq ≠ u.seq := not_makes_of_goes hp ho hu hgoes hdst halu hm
      exact hne

theorem alu_next (hr : ResultsOk s h) (hp : PlacesOk conf s h) (ho : s.front.core.Ordered)
    {w : Fin W} (hv : ((s.next conf i).units w).alu = some (v, d)) (hwen : v.kind.rfWen = true)
    (hcsr : v.kind ≠ .csr) : (logNext conf s i h).produced v.seq = some d := by
  obtain ⟨r, hreq, -, rfl, rfl⟩ := ExeUnit.alu_next.mp hv
  have hm : Makes conf s i (.exe w) r.uop (r.aluOut (i.currPc w)) := .alu hreq rfl hwen hcsr
  have hnone : h.produced r.uop.seq = none := by
    refine hr.unmade _ _ hm.at_place hm.hasDst ?_
    intro w hw
    cases hw
  have hsome : (logNext conf s i h).produced r.uop.seq = some (r.aluOut (i.currPc w)) :=
    hp.produced_next_of_makes ho hnone hm
  exact hsome

theorem future_next (hr : ResultsOk s h) (hp : PlacesOk conf s h)
    (hq : (s.next conf i).front.core.count ≤ q) : (logNext conf s i h).produced q = none := by
  have hle : s.front.core.count ≤ q := (Nat.le_add_right _ _).trans hq
  refine hp.produced_next_of_none (hr.future q hle) ?_
  intro g u d hm
  exact ((hp.lt g u hm.at_place).trans_le hle).ne

theorem laneOf_eq_some {w : Bank c} : s.laneOf conf i q = some w ↔
    s.front.core.disMask (s.coreInput conf i) w = true ∧
      (s.front.core.disUops (s.coreInput conf i) w).seq = q := by
  constructor
  · intro hlane
    have hq := List.find?_some hlane
    exact ⟨Core.mem_disSlots.mp (List.mem_of_find?_eq_some hlane), of_decide_eq_true hq⟩
  · rintro ⟨hw, rfl⟩
    exact laneOf_of_disMask hw

theorem undispatched_next (hr : ResultsOk s h) (hq : (s.next conf i).front.core.count ≤ q) :
    (logNext conf s i h).dispatched q = none := by
  dsimp only [logNext]
  cases hlane : s.laneOf conf i q with
  | none => exact hr.undispatched q ((Nat.le_add_right _ _).trans hq)
  | some w =>
    obtain ⟨hw, rfl⟩ := laneOf_eq_some.mp hlane
    have hlt := (Core.seq_newUops (Core.mem_newUops.mpr ⟨w, hw, rfl⟩)).2
    exact absurd hq hlt.not_ge

/-- **What the history knows about results stays right.** -/
theorem next (hr : ResultsOk s h) (hp : PlacesOk conf s h) (ho : s.front.core.Ordered) :
    ResultsOk (s.next conf i) (logNext conf s i h) where
  undispatched _ hq := hr.undispatched_next hq
  future _ hq := hr.future_next hp hq
  unmade _ _ hv hdst halu := hr.unmade_next hp ho hv hdst halu
  alu _ _ _ hv hwen hcsr := hr.alu_next hp ho hv hwen hcsr

/-- **What a unit answers** is the result. -/
theorem produced_of_answers (hr : ResultsOk s h) (hp : PlacesOk conf s h)
    (ho : s.front.core.Ordered) {r : ExeResp c} (ha : Answers conf s i g u r)
    (hdst : u.kind.hasDst = true) : (logNext conf s i h).produced u.seq = some r.data := by
  by_cases hkind : u.kind = .csr ∨ u.kind = .mulDiv ∨ u.kind = .load
  · refine hp.produced_next_of_makes ho (hr.unmade g u ha.at_place hdst ?_) (.answer ha hkind)
    rintro w rfl
    have hsuits := hp.suits _ _ ha.at_place
    refine hkind.resolve_right ?_
    rintro (h | h) <;> rw [Suits, h] at hsuits
    · exact hsuits.2.1 rfl
    · exact hsuits.2.2 rfl
  · simp only [not_or] at hkind
    obtain ⟨hcsr, hmul, hload⟩ := hkind
    have hsuits := hp.suits g u ha.at_place
    cases ha with
    | @alu w u d hk hu hkill =>
      have hwen : u.kind.rfWen = true := by
        cases hu : u.kind <;> rw [hu] at hdst hload <;> first
          | rfl
          | exact absurd rfl hload
          | cases hdst
      have hdata := wbData_of_ne (i := i) (w := w) (j := 0)
        (r := ⟨u.resolve s.front.core.brinfo, d, u.kind.rfWen, u.ldstRtype⟩) hcsr
      rw [hdata]
      exact produced_next_of_some (hr.alu w u d hu hwen hcsr)
    | mulDiv =>
      rcases hsuits.2 with h | h
      · exact absurd h hmul
      · rw [h] at hdst
        cases hdst
    | load => exact absurd hsuits.2 hload

end ResultsOk

omit [NeZero W] in
theorem IsReset.resultsOk (hreset : s.IsReset) (hd : ∀ q, h.dispatched q = none)
    (hp : ∀ q, h.produced q = none) : ResultsOk s h where
  undispatched q _ := hd q
  future q _ := hp q
  unmade _ _ hu := (hreset.not_at hu).elim
  alu w _ d hu := (hreset.not_at (g := .alu w) ⟨d, hu⟩).elim

/-! ### The last writer of a register -/

section Writers

variable {p : PReg c} {q n : ℕ}

section

variable (hr : ResultsOk s h)
include hr

/-- Who writes a register after a cycle: who did before, and what is dispatched. -/
theorem ResultsOk.writes_next : (logNext conf s i h).Writes q p ↔
    q < s.front.core.count ∧ h.Writes q p ∨
      ∃ w, s.front.core.disMask (s.coreInput conf i) w = true ∧
        (s.front.core.disUops (s.coreInput conf i) w).seq = q ∧
        (s.front.core.disUops (s.coreInput conf i) w).needsPreg = true ∧
        (s.front.core.disUops (s.coreInput conf i) w).pdst = p := by
  dsimp only [BackendLog.Writes, logNext]
  cases hlane : s.laneOf conf i q with
  | some w =>
    obtain ⟨hw, rfl⟩ := ResultsOk.laneOf_eq_some.mp hlane
    constructor
    · rintro ⟨u, hu, hneeds, hpdst⟩
      cases hu
      exact .inr ⟨w, hw, rfl, hneeds, hpdst⟩
    · rintro (⟨hlt, -⟩ | ⟨w', hw', hseq, hneeds, hpdst⟩)
      · have hge := (Core.seq_newUops (Core.mem_newUops.mpr ⟨w, hw, rfl⟩)).1
        exact absurd hlt hge.not_gt
      · cases hlane.symm.trans (ResultsOk.laneOf_eq_some.mpr ⟨hw', hseq⟩)
        exact ⟨_, rfl, hneeds, hpdst⟩
  | none =>
    constructor
    · rintro ⟨u, hu, hneeds, hpdst⟩
      refine .inl ⟨?_, u, hu, hneeds, hpdst⟩
      rw [← not_le]
      intro hle
      rw [hr.undispatched q hle] at hu
      cases hu
    · rintro (⟨-, hwrites⟩ | ⟨w, hw, hseq, -⟩)
      · exact hwrites
      · cases hlane.symm.trans (ResultsOk.laneOf_eq_some.mpr ⟨hw, hseq⟩)

theorem ResultsOk.writes_next_of_lt (hq : q < s.front.core.count) :
    (logNext conf s i h).Writes q p ↔ h.Writes q p := by
  rw [hr.writes_next]
  constructor
  · rintro (⟨-, hwrites⟩ | ⟨w, hw, rfl, -⟩)
    · exact hwrites
    · have hge := (Core.seq_newUops (Core.mem_newUops.mpr ⟨w, hw, rfl⟩)).1
      exact absurd hq hge.not_gt
  · exact fun hwrites => .inl ⟨hq, hwrites⟩

theorem ResultsOk.lastWriter_next_of_le (hn : n ≤ s.front.core.count) :
    (logNext conf s i h).LastWriter n p q ↔ h.LastWriter n p q := by
  constructor
  · rintro ⟨hlt, hwrites, hlast⟩
    refine ⟨hlt, (hr.writes_next_of_lt (hlt.trans_le hn)).mp hwrites, ?_⟩
    intro q' hq' hlt' hw
    exact hlast q' hq' hlt' ((hr.writes_next_of_lt (hlt'.trans_le hn)).mpr hw)
  · rintro ⟨hlt, hwrites, hlast⟩
    refine ⟨hlt, (hr.writes_next_of_lt (hlt.trans_le hn)).mpr hwrites, ?_⟩
    intro q' hq' hlt' hw
    exact hlast q' hq' hlt' ((hr.writes_next_of_lt (hlt'.trans_le hn)).mp hw)

/-- A register that is not handed out keeps its last writer. -/
theorem ResultsOk.lastWriter_next_of_kept
    (hkept : s.front.core.handsOut (s.coreInput conf i) p = false)
    (hq : h.LastWriter s.front.core.count p q) :
    (logNext conf s i h).LastWriter (s.next conf i).front.core.count p q := by
  refine ⟨hq.lt.trans_le (Nat.le_add_right _ _), (hr.writes_next_of_lt hq.lt).mpr hq.writes, ?_⟩
  intro q' hlt _ hw
  rcases hr.writes_next.mp hw with ⟨hq', hw⟩ | ⟨w, hw, -, hneeds, hpdst⟩
  · exact hq.last q' hlt hq' hw
  · rw [Core.handsOut_eq_true.mpr ⟨w, hw, hneeds, hpdst⟩] at hkept
    cases hkept

theorem ResultsOk.lastWriter_new {w : Bank c}
    (hw : s.front.core.disMask (s.coreInput conf i) w = true)
    (hneeds : (s.front.core.disUops (s.coreInput conf i) w).needsPreg = true) :
    (logNext conf s i h).LastWriter (s.next conf i).front.core.count
      (s.front.core.disUops (s.coreInput conf i) w).pdst
      (s.front.core.disUops (s.coreInput conf i) w).seq := by
  have hseq := Core.seq_newUops (Core.mem_newUops.mpr ⟨w, hw, rfl⟩)
  refine ⟨hseq.2, hr.writes_next.mpr (.inr ⟨w, hw, rfl, hneeds, rfl⟩), ?_⟩
  intro q' hlt _ hwrites
  rcases hr.writes_next.mp hwrites with ⟨hq', -⟩ | ⟨x, hx, rfl, hneeds', hpdst⟩
  · exact absurd (hseq.1.trans_lt hlt) hq'.not_gt
  · have hwx : x = w := RenameStage.pdst_inj
      ((Core.writes_renInput x).trans (by rw [hx, hneeds']; rfl))
      ((Core.writes_renInput w).trans (by rw [hw, hneeds]; rfl)) hpdst
    rw [hwx] at hlt
    exact lt_irrefl _ hlt

end

end Writers

end Backend

end RiscvSoc
