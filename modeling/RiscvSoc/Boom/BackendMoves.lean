import RiscvSoc.Boom.BackendPlaces

/-!
# The back end and the reorder buffer keep in step

`Backend.PlacesOk` is kept by every cycle. What moves on stays in the buffer and busy: whatever
clears a busy bit is the answer to the very micro-op, and what has been answered goes nowhere.
-/

namespace RiscvSoc

open Rob ExeUnitKind ExeUnit

variable {c : BOOMConf} {N W : ℕ}

namespace Backend

variable {s : Backend c N W} {u : ExeUop c} {x : RobSlot c}

theorem drops_eq_false : s.drops u = false ↔
    s.front.core.rob.flushPipeline = false ∧
      isKilledByBranch s.front.core.brinfo u.brMask = false := Bool.or_eq_false_iff

/-- What flushes when it commits does so, and nothing is behind it. -/
theorem flushVal_of_commits {s : Core c} (ho : s.Ordered)
    (hcom : s.rob.commits x = true) (hflush : (s.rob.entry x).uop.flushOnCommit = true)
    (i : CoreInput c) : s.rob.flushVal = true ∧ s.newUops i = [] ∧ (s.next i).rob.window = [] := by
  have hx := val_of_commits hcom
  have hmem : (s.rob.entry x).uop ∈ s.rob.window := mem_window.mpr ⟨x, hx, rfl⟩
  obtain ⟨hstate, hlast⟩ := ho.unique _ hmem (ho.unique_of_commits hcom hflush)
  have hnew : s.newUops i = [] := by
    refine Core.newUops_of_kill (.inr (.inr ?_))
    rcases hstate with h | h <;>
      · rw [h]
        decide
  refine ⟨?_, hnew, ?_⟩
  · obtain ⟨hrow, hwill⟩ := commits_eq_true.mp hcom
    rw [flushVal, Bool.or_eq_true, orR_eq_true]
    refine .inr ⟨x.2, ?_⟩
    rw [Bool.and_eq_true, comUops, comIdx,
      if_neg (not_rollback_of_commits hcom), ← hrow]
    exact ⟨hwill, hflush⟩
  · rw [ho.window_next, hnew, List.append_nil, List.map_eq_nil_iff, List.filter_eq_nil_iff]
    intro v hv
    have hself : s.commits (s.rob.entry x).uop = true := by
      rw [Core.commits, ho.shaped.addressed x hx, hcom]
    have hv' : s.commits v = true := ho.commits_of_seq_le hmem hv (hlast v hv) hself
    have hcom' : s.rob.commits (robSlot v.robIdx) = true := hv'
    rw [removes, hcom']
    simp

theorem kind_of_commits (hbsy : u.kind ≠ .nop → (s.front.core.rob.entry x).bsy = true)
    (hcom : s.front.core.rob.commits x = true) : u.kind = .nop := by
  by_contra hnop
  obtain ⟨hrow, hcom⟩ := commits_eq_true.mp hcom
  obtain ⟨_, hval, hall⟩ := willCommit_eq_true.mp hcom
  have hfree := (hall x.2 le_rfl hval).1
  rw [← hrow, hbsy hnop] at hfree
  cases hfree

variable [NeZero W] {conf : BackendConf c W} {s : Backend c N W} {i : BackendInput c W}
  {h : BackendLog c N W}

namespace PlacesOk

variable {g g' : Stage N W} {u v : ExeUop c} {r : ExeReq c}

/-! ### Which unit takes what -/

variable {w : Fin W}

section

variable (hp : PlacesOk conf s h)
include hp

/-- What a unit gives to its ALU is neither for the multiplier nor for memory. -/
theorem suits_alu
    (hr : (conf.kinds w).aluReq (s.exeReg w) = some r) : (conf.kinds w).hasAlu = true ∧
      r.uop.kind.fuCode ≠ FU_MULD ∧ r.uop.kind.fuCode ≠ FU_MEM := by
  obtain ⟨hreg, hk, hcode⟩ := of_aluReq hr
  have hat : s.At (.exe w) r.uop := ⟨r, hreg, rfl⟩
  have hsuits : r.uop.fuCode &&& (conf.kinds w).codes (decide (w = 0)) true ≠ 0 :=
    hp.suits _ _ hat
  by_cases hnop : r.uop.kind = .nop
  · rw [hnop]
    exact ⟨hk, by decide, by decide⟩
  · rw [(hp.row _ _ hat).fuCode hnop] at hcode hsuits
    refine ⟨hk, ?_, ?_⟩ <;>
      · intro hbad
        rw [hbad] at hcode hsuits
        rcases hcode with hkind | hcode | hcode | hcode | hcode
        · rw [hkind] at hsuits
          first
            | cases (of_codes_muld hsuits).1
            | cases of_codes_mem hsuits
        all_goals cases hcode

theorem suits_mulDiv (hr : (conf.kinds w).mulDivReq (s.exeReg w) = some r) :
    (conf.kinds w).hasMulDiv = true ∧ (r.uop.kind = .mulDiv ∨ r.uop.kind = .nop) := by
  obtain ⟨hreg, hk, hcode⟩ := of_mulDivReq hr
  have hat : s.At (.exe w) r.uop := ⟨r, hreg, rfl⟩
  have hsuits : r.uop.fuCode &&& (conf.kinds w).codes (decide (w = 0)) true ≠ 0 :=
    hp.suits _ _ hat
  refine ⟨hk, ?_⟩
  by_cases hnop : r.uop.kind = .nop
  · exact .inr hnop
  · rw [(hp.row _ _ hat).fuCode hnop] at hcode hsuits
    cases hkind : r.uop.kind with
    | mulDiv => exact .inl rfl
    | nop => exact .inr rfl
    | _ =>
      rw [hkind] at hcode hsuits
      rw [hcode.resolve_right (by decide)] at hsuits
      first
        | cases of_codes_alu hsuits
        | cases (of_codes_bru hsuits).1
        | cases (of_codes_pcr hsuits).1
        | cases of_codes_mem hsuits

theorem suits_next (hv : (s.next conf i).At g' v) : Suits conf g' v := by
  rcases at_next hp.lt hv with ⟨k, w, b, rfl, -, rfl⟩ | ⟨g, u, hu, -, rfl, hgoes⟩
  · trivial
  · cases hgoes with
    | wait => trivial
    | @issue w k hk =>
      obtain ⟨-, rfl⟩ := hu
      exact codes_mono (of_iss hk).2.2.2.2
    | alu hr hur =>
      subst hur
      exact hp.suits_alu hr
    | start hr hur =>
      subst hur
      exact hp.suits_mulDiv (mulDivFire_eq_some.mp hr).2
    | send hload =>
      obtain ⟨r, hr, rfl, hkind⟩ := newLoad_eq_some.mp hload
      exact ⟨(of_memReq hr).2, hkind⟩
    | work => exact hp.suits _ u hu
    | pend => exact hp.suits _ u hu

/-! ### The buffer waits for what moves on -/

theorem exists_entry (ho : s.front.core.Ordered) (hu : s.At g u)
    (hdrop : s.drops u = false) : ∃ x, (s.front.core.rob.entry x).val = true ∧
      (u.kind ≠ .nop → (s.front.core.rob.entry x).bsy = true) ∧
      u.From (s.front.core.rob.entry x).uop ∧ robSlot u.robIdx = x := by
  rcases hp.backed g u hu with ⟨x, hx, hbsy, hfrom⟩ | ⟨-, hflush, -⟩
  · exact ⟨x, hx, hbsy, hfrom, hfrom.robIdx ▸ ho.shaped.addressed x hx⟩
  · rw [(drops_eq_false.mp hdrop).1] at hflush
    cases hflush

/-- A half of a store goes nowhere from in front of a unit. -/
theorem not_goes_of_store (hu : s.At (.exe w) u)
    (hkind : u.kind = .sta ∨ u.kind = .std) : ¬s.Goes conf i u (.exe w) g' := by
  intro hgoes
  cases hgoes with
  | alu hr hur =>
    subst hur
    have hsuits := (hp.suits_alu hr).2.2
    rcases hkind with hkind | hkind <;>
      · rw [hkind] at hsuits
        exact hsuits rfl
  | start hr hur =>
    subst hur
    have hsuits := (hp.suits_mulDiv (mulDivFire_eq_some.mp hr).2).2
    rcases hkind with hkind | hkind <;>
      · rw [hkind] at hsuits
        rcases hsuits with h | h <;> cases h
  | send hload =>
    obtain ⟨-, -, -, hload⟩ := newLoad_eq_some.mp hload
    rcases hkind with hkind | hkind <;>
      · rw [hkind] at hload
        cases hload

theorem not_goes_of_answers {r : ExeResp c}
    (ha : Answers conf s i g u r) : ¬s.Goes conf i u g g' := by
  intro hgoes
  cases ha with
  | alu => cases hgoes
  | mulDiv hr hready =>
    cases hgoes with
    | work hwait =>
      rw [hwait (mulDivResp_eq_some.mp hr).1] at hready
      cases hready
  | @load w n d u hmem hu =>
    cases hgoes with
    | pend hwait =>
      have hans : (s.unitInput i w).memAnswer = some (.load n d) := hmem
      rw [waiting, hans] at hwait
      have hnodup := List.Nodup.of_map _ (hp.distinct w)
      obtain ⟨hn, hget⟩ := List.getElem?_eq_some_iff.mp hu
      obtain ⟨m, hm, hne, hget'⟩ := List.mem_eraseIdx_iff_getElem.mp hwait
      exact hne ((hnodup.getElem_inj_iff).mp (hget'.trans hget.symm))

/-- **What moves on is not answered.** -/
theorem clearsBsy_of_goes (ho : s.front.core.Ordered) (hok : i.Ok s) (hu : s.At g u)
    (hgoes : s.Goes conf i u g g') :
    (s.front.core.robInput (s.coreInput conf i)).clearsBsy (robSlot u.robIdx) = false := by
  rw [← Bool.not_eq_true]
  intro hclear
  rcases hp.of_clearsBsy hclear with ⟨g₁, v, r, ha, hstore, hidx⟩ | ⟨w, r, hr, hother, hkind, hidx⟩
  · -- the answer is about this micro-op
    have hseq := hp.seq_of_robSlot ho ha.at_place hu hidx
    obtain ⟨rfl, rfl⟩ := hp.eq_of_seq ho ha.at_place hu hseq hstore
    exact hp.not_goes_of_answers ha hgoes
  · -- it is about a store, which waits for its other half in a slot
    have hat : s.At (.exe w) r.uop := ⟨r, hr, rfl⟩
    have hstore : r.uop.isStore = true := (hp.row _ _ hat).store.mpr hkind
    have hkind' : u.kind = .sta ∨ u.kind = .std := by
      rw [← (hp.row g u hu).store, ← Bool.not_eq_false]
      intro hnot
      have heq := (hp.eq_of_seq ho hu hat (hp.seq_of_robSlot ho hu hat hidx.symm) hnot).2
      rw [heq, hstore] at hnot
      cases hnot
    have hsuits := hp.suits g u hu
    cases g with
    | slot k =>
      obtain ⟨hvalid, rfl⟩ := hu
      exact hok w r hother hr k hvalid hidx.symm
    | exe w => exact hp.not_goes_of_store hu hkind' hgoes
    | alu w => cases hgoes
    | mulDiv w =>
      rcases hkind' with hkind' | hkind' <;>
        · rw [Suits, hkind'] at hsuits
          rcases hsuits.2 with h | h <;> cases h
    | load w =>
      rcases hkind' with hkind' | hkind' <;>
        · rw [Suits, hkind'] at hsuits
          cases hsuits.2
    | gone => exact hu

/-- What is not dropped and does not commit stays in the buffer. -/
theorem removes_of_at (hu : s.At g u) (hdrop : s.drops u = false) {x : RobSlot c}
    (hx : (s.front.core.rob.entry x).val = true) (hfrom : u.From (s.front.core.rob.entry x).uop)
    (hcom : s.front.core.rob.commits x = false) :
    s.front.core.rob.removes (s.front.core.robInput (s.coreInput conf i)) x = false := by
  obtain ⟨hflush, hbranch⟩ := drops_eq_false.mp hdrop
  refine removes_eq_false.mpr ⟨hcom, ?_, ?_⟩
  · rw [hfrom.brMask] at hbranch
    rw [brKills, hx, Bool.true_and]
    exact hbranch
  · rw [← Bool.not_eq_true, rollsBack_eq_true]
    rintro ⟨hroll, -⟩
    exact hp.drained hroll hflush g u hu

/-! ### The invariant is kept -/

theorem lt_next (hv : (s.next conf i).At g' v) :
    v.seq < (s.next conf i).front.core.count := by
  rcases at_next hp.lt hv with ⟨k, w, b, -, henters, rfl⟩ | ⟨g, u, hu, -, rfl, -⟩
  · exact (seq_of_enters henters).2
  · exact (hp.lt g u hu).trans_le (Nat.le_add_right _ _)

theorem stage_next (hv : (s.next conf i).At g' v) :
    (logNext conf s i h).stage v.key = g' := by
  rcases at_next hp.lt hv with ⟨k, w, b, rfl, henters, rfl⟩ | ⟨g, u, hu, -, rfl, hgoes⟩
  · exact nextStage_of_enters henters
  · have hload : u.kind = .load → u.fuCode = FU_MEM := by
      intro hkind
      rw [(hp.row g u hu).fuCode (by rw [hkind]; decide), hkind]
      rfl
    have hkey : s.nextStage conf i h u.key = g' :=
      nextStage_of_goes (hp.lt g u hu) hload (hp.stage g u hu) hgoes
    exact hkey

end

/-- What is left of a list of distinct halves is distinct. -/
theorem nodup_keep {j : ExeUnitInput c} {l : List (ExeUop c)} (hl : (l.map ExeUop.key).Nodup) :
    ((l.filterMap (ExeUnit.keep j)).map ExeUop.key).Nodup := by
  rw [List.Nodup, List.pairwise_map] at hl ⊢
  refine List.pairwise_filterMap.mpr (hl.imp ?_)
  intro a a' hne b hb b' hb'
  rw [(keep_eq_some.mp hb).2, (keep_eq_some.mp hb').2]
  exact hne

theorem distinct_next (hp : PlacesOk conf s h) (w : Fin W) :
    (((s.next conf i).units w).loads.map ExeUop.key).Nodup := by
  have hloads : ((s.next conf i).units w).loads =
      ((s.units w).waiting (s.unitInput i w) ++
        (newLoad (conf.kinds w) (s.unitInput i w)).toList).filterMap
          (ExeUnit.keep (s.unitInput i w)) := by
    rw [List.filterMap_append]
    show _ ++ _ = _ ++ _
    congr 1
    cases newLoad (conf.kinds w) (s.unitInput i w) with
    | none => rfl
    | some u =>
      rw [Option.bind_some, Option.toList_some, List.filterMap_cons]
      cases ExeUnit.keep (s.unitInput i w) u <;> rfl
  rw [hloads]
  refine nodup_keep ?_
  rw [List.map_append, List.nodup_append]
  refine ⟨?_, ?_, ?_⟩
  · refine List.Nodup.sublist (List.Sublist.map _ ?_) (hp.distinct w)
    rw [waiting]
    split
    · exact List.eraseIdx_sublist _ _
    · exact List.Sublist.refl _
  · cases newLoad (conf.kinds w) (s.unitInput i w) <;> simp
  · intro x hx y hy hxy
    obtain ⟨u, hu, rfl⟩ := List.mem_map.mp hx
    obtain ⟨v, hv, rfl⟩ := List.mem_map.mp hy
    obtain ⟨r, hr, rfl, -⟩ := newLoad_eq_some.mp (Option.mem_toList.mp hv)
    have hexe : s.At (.exe w) r.uop := ⟨r, (of_memReq hr).1, rfl⟩
    have hload : s.At (.load w) u := mem_of_waiting hu
    cases (hp.eq_of_key hload hexe hxy).1

theorem row_next (hp : PlacesOk conf s h) (hv : (s.next conf i).At g' v) : v.Row := by
  rcases at_next hp.lt hv with ⟨k, w, b, -, henters, rfl⟩ | ⟨g, u, hu, -, rfl, -⟩
  · exact row_newUop henters
  · exact (hp.row g u hu).resolve _

theorem drained_next (hp : PlacesOk conf s h)
    (hroll : (s.next conf i).front.core.rob.state = .rollback)
    (hflush : (s.next conf i).front.core.rob.flushPipeline = false) :
    ¬(s.next conf i).At g' v := by
  intro hv
  have hstate : s.front.core.rob.state = .rollback := by
    refine (nextState_rollback hroll).resolve_right ?_
    intro hthrow
    have hval : s.front.core.rob.flushVal = false := hflush
    rw [flushVal, hthrow] at hval
    cases hval
  rcases at_next hp.lt hv with ⟨k, w, b, -, henters, -⟩ | ⟨g, u, hu, hdrop, -, -⟩
  · have hgoes := Core.goes_of_disMask henters.disMask
    rw [(ready_eq_true.mp hgoes.ready).1] at hstate
    cases hstate
  · exact hp.drained hstate (drops_eq_false.mp hdrop).1 g u hu

theorem free_next (hr : (conf.kinds w).mulDivReq ((s.next conf i).exeReg w) = some r) :
    ((s.next conf i).units w).mulDiv.state = .sReady := by
  obtain ⟨hreg, -, hcode⟩ := of_mulDivReq hr
  obtain ⟨k, hk, -, rfl⟩ := exeReg_next.mp hreg
  have hcan := (of_iss hk).2.2.2.2
  have hfree : (decide ((s.units w).mulDiv.state = .sReady) &&
      !((conf.kinds w).mulDivReq (s.exeReg w)).isSome) = true := by
    rw [fuTypes] at hcan
    rcases hcode with hkind | hcode
    · rw [hkind] at hcan ⊢
      by_contra hno
      rw [Bool.not_eq_true] at hno
      rw [hno] at hcan
      exact hcan (Nat.and_zero _)
    · have hcode : (s.front.issue.slots k).slotUop.fuCode = FU_MULD := hcode
      rw [hcode] at hcan
      exact (of_codes_muld hcan).2
  simp only [Bool.and_eq_true, decide_eq_true_eq, Bool.not_eq_true', Option.isSome_eq_false_iff,
    Option.isNone_iff_eq_none] at hfree
  by_contra hbusy
  have hnext : (MulDiv.next conf.mulDiv (s.units w).mulDiv
      ((s.units w).mulDivIn (conf.kinds w) (s.unitInput i w))).state ≠ .sReady := hbusy
  rcases MulDiv.of_state_next_ne hnext with hfire | ⟨hwork, -, -⟩
  · have hvalid := (Bool.and_eq_true_iff.mp (Bool.and_eq_true_iff.mp hfire).2).1
    have hreq : (conf.kinds w).mulDivReq (s.unitInput i w).req = none := hfree.2
    rw [hreq] at hvalid
    cases hvalid
  · exact hwork hfree.1

section

variable (hp : PlacesOk conf s h) (ho : s.front.core.Ordered)
include hp ho

theorem backed_next (hok : i.Ok s) (hv : (s.next conf i).At g' v) : (s.next conf i).Backed v := by
  rcases at_next hp.lt hv with ⟨k, w, b, -, henters, rfl⟩ | ⟨g, u, hu, hdrop, rfl, hgoes⟩
  · -- it is dispatched in this cycle, to both
    have hw := henters.disMask
    have hfill : s.front.core.rob.fills (s.front.core.robInput (s.coreInput conf i))
        (s.front.core.rob.tail, w) = true := fills_eq_true.mpr ⟨rfl, hw⟩
    have huop : ((s.next conf i).front.core.rob.entry (s.front.core.rob.tail, w)).uop =
        s.front.core.disUops (s.coreInput conf i) w :=
      uop_next_of_fills ho.shaped ho.accepts hfill
    refine .inl ⟨(s.front.core.rob.tail, w), val_next_of_fills ho.shaped ho.accepts hfill,
      ?_, huop.symm ▸ from_newUop henters⟩
    intro hnop
    refine (bsy_next_of_fills hfill (hp.clearsBsy_new ho hw)).trans ?_
    obtain ⟨hexc, -⟩ := CoreIssue.partOf_of_writes henters
    obtain ⟨hsret, hmem, hfencei⟩ := (i.decs w).busy_of_kind hexc (info_of_kind henters hnop)
    show (!(i.core.decInsts w).isSret && !(i.core.decInsts w).isMemSpecial &&
      !(i.core.decInsts w).isFencei) = true
    rw [hsret, hmem, hfencei]
    rfl
  · obtain ⟨x, hx, hbsy, hfrom, hidx⟩ := hp.exists_entry ho hu hdrop
    cases hcom : s.front.core.rob.commits x with
    | true =>
      -- it commits, and with it all that is left in the buffer
      have hnop := kind_of_commits hbsy hcom
      have hflush : (s.front.core.rob.entry x).uop.flushOnCommit = true :=
        hfrom.flushOnCommit ▸ (hp.row g u hu).flush hnop
      obtain ⟨hval, -, hempty⟩ := flushVal_of_commits ho hcom hflush (s.coreInput conf i)
      exact .inr ⟨hnop, hval, hempty⟩
    | false =>
      have hkeep := hp.removes_of_at hu hdrop hx hfrom hcom (i := i)
      have huop : ((s.next conf i).front.core.rob.entry x).uop =
          (s.front.core.rob.entry x).uop.resolve s.front.core.brinfo :=
        uop_next_of_stays ho.shaped ho.accepts hx hkeep
      refine .inl ⟨x, val_next_eq_true.mpr ⟨hkeep, .inr hx⟩, ?_,
        huop.symm ▸ hfrom.resolve _⟩
      intro hnop
      have hclear := hp.clearsBsy_of_goes ho hok hu hgoes
      rw [hidx] at hclear
      exact (bsy_next_of_stays ho.shaped ho.accepts hx hclear).trans (hbsy hnop)

/-- What is not executed yet is not the branch in the ALU. -/
theorem executed_next (hv : (s.next conf i).At (.alu w) v) {b' : RobUop c}
    (hb : b' ∈ (s.next conf i).front.core.brs) : b'.seq ≠ v.seq := by
  rcases at_next hp.lt hv with ⟨k, w, b, hslot, -, -⟩ | ⟨g, u, hu, hdrop, rfl, hgoes⟩
  · cases hslot
  cases hgoes with
  | @alu w r hr hur =>
    subst hur
    intro hseq
    have hmem : b' ∈ (s.front.core.brsLeft (s.coreInput conf i)).filterMap s.front.core.brFilter ++
        (s.front.core.newUops (s.coreInput conf i)).filter fun u => u.allocatesBrTag := hb
    rcases List.mem_append.mp hmem with hold | hnew
    · obtain ⟨b, hleft, hfilter⟩ := List.mem_filterMap.mp hold
      obtain ⟨-, -, rfl⟩ := Core.brFilter_eq_some.mp hfilter
      have hseq : b.seq = r.uop.seq := hseq
      have hbrs : b ∈ s.front.core.brs := by
        rw [Core.brsLeft] at hleft
        split at hleft
        · exact List.mem_of_mem_eraseIdx hleft
        · exact hleft
      have hpend := Core.mem_pending_of_brs hbrs
      -- it is a branch, so this is the first unit, and the branch unit takes it
      obtain ⟨x, hx, -, hfrom, -⟩ := hp.exists_entry ho hu hdrop
      have hentry := ho.eq_of_seq (mem_window.mpr ⟨x, hx, rfl⟩) (ho.mem_window hpend)
        (hfrom.seq.symm.trans hseq.symm)
      rw [hentry] at hfrom
      have halloc : r.uop.allocatesBrTag = true :=
        hfrom.allocatesBrTag.trans (ho.allocates b hpend)
      have hrow := hp.row _ _ hu
      have hcode : r.uop.fuCode = FU_BRU := by
        rw [hrow.fuCode, hrow.bru halloc]
        intro hnop
        have hbru := hrow.bru halloc
        rw [hnop] at hbru
        cases hbru
      have hsuits : r.uop.fuCode &&& (conf.kinds w).codes (decide (w = 0)) true ≠ 0 :=
        hp.suits _ _ hu
      rw [hcode] at hsuits
      have hw : w = 0 := of_decide_eq_true (of_codes_bru hsuits).2
      subst hw
      have hexe : (s.coreInput conf i).exe =
          some (s.front.core.brs.findIdx fun b => decide (b.seq = r.uop.seq), i.mispredict) := by
        show s.exeBranch conf i = _
        rw [exeBranch, hr, Option.bind_some, if_pos halloc]
      rw [Core.brsLeft, hexe] at hleft
      obtain ⟨m, hm, hne, hget⟩ := List.mem_eraseIdx_iff_getElem.mp hleft
      have hfound : (s.front.core.brs.findIdx fun b => decide (b.seq = r.uop.seq)) <
          s.front.core.brs.length :=
        List.findIdx_lt_length_of_exists ⟨b, hbrs, decide_eq_true hseq⟩
      have hsat := of_decide_eq_true (List.findIdx_getElem (w := hfound))
      have hsame := ho.eq_of_seq (ho.mem_window (Core.mem_pending_of_brs (List.getElem_mem hm)))
        (ho.mem_window (Core.mem_pending_of_brs (List.getElem_mem hfound)))
        ((congrArg RobUop.seq hget).trans (hseq.trans hsat.symm))
      have hnodup : s.front.core.brs.Nodup :=
        (List.Nodup.of_map _ ho.nodupTags).sublist (List.sublist_append_right _ _)
      exact hne ((hnodup.getElem_inj_iff).mp hsame)
    · have hge := (Core.seq_newUops (List.mem_filter.mp hnew).1).1
      have hlt : r.uop.seq < s.front.core.count := hp.lt _ _ hu
      have hseq : b'.seq = r.uop.seq := hseq
      rw [hseq] at hge
      exact lt_irrefl _ (hge.trans_lt hlt)

theorem alone_next (hv : (s.next conf i).At g' v) (hnop : v.kind = .nop) :
    v.seq + 1 = (s.next conf i).front.core.count := by
  show v.seq + 1 = s.front.core.count + (s.front.core.newUops (s.coreInput conf i)).length
  rcases at_next hp.lt hv with ⟨k, w, b, -, henters, rfl⟩ | ⟨g, u, hu, hdrop, rfl, -⟩
  · have hw := henters.disMask
    have hflush : (i.core.decInsts w).flushOnCommit = true :=
      (from_newUop henters).flushOnCommit.symm.trans ((row_newUop henters).flush hnop)
    have hexc : (i.core.decInsts w).exception = false :=
      (from_newUop henters).exception.symm.trans (row_newUop henters).exception
    have hunique := (i.core.decInsts w).unique_of_flush hexc hflush
    have hmem := Core.mem_newUops.mpr ⟨w, hw, rfl⟩
    -- the last one of the bundle is no younger
    have hlast : s.front.core.count + ((s.front.core.newUops (s.coreInput conf i)).length - 1) ∈
        (s.front.core.newUops (s.coreInput conf i)).map (·.seq) := by
      rw [Core.map_seq_newUops]
      refine List.mem_map_of_mem (List.mem_range.mpr ?_)
      exact Nat.sub_lt (List.length_pos_of_mem hmem) Nat.one_pos
    obtain ⟨u, hu, huseq⟩ := List.mem_map.mp hlast
    obtain ⟨x, hx, rfl⟩ := Core.mem_newUops.mp hu
    have hle : (s.front.core.disUops (s.coreInput conf i) x).seq ≤
        (s.front.core.disUops (s.coreInput conf i) w).seq := by
      rw [← not_lt, Core.seq_disUops_lt hw hx]
      intro hlt
      rw [Core.disMask_of_unique hw hunique hlt] at hx
      cases hx
    have hlt := (Core.seq_newUops hmem).2
    rw [newUop_seq]
    omega
  · obtain ⟨x, hx, -, hfrom, -⟩ := hp.exists_entry ho hu hdrop
    have hmem := mem_window.mpr ⟨x, hx, rfl⟩
    have hflush : (s.front.core.rob.entry x).uop.flushOnCommit = true :=
      hfrom.flushOnCommit ▸ (hp.row g u hu).flush hnop
    have hexc : (s.front.core.rob.entry x).uop.exception = false :=
      hfrom.exception ▸ (hp.row g u hu).exception
    have hstate := (ho.unique _ hmem (ho.unique_of_flush _ hmem hexc hflush)).1
    have hnew : s.front.core.newUops (s.coreInput conf i) = [] := by
      refine Core.newUops_of_kill (.inr (.inr ?_))
      rcases hstate with h | h <;>
        · rw [h]
          decide
    rw [hnew]
    exact hp.alone g u hu hnop

/-- **The back end and the reorder buffer keep in step.** -/
theorem next (hok : i.Ok s) :
    PlacesOk conf (s.next conf i) (logNext conf s i h) where
  lt _ _ hv := hp.lt_next hv
  stage _ _ hv := hp.stage_next hv
  distinct w := hp.distinct_next w
  row _ _ hv := hp.row_next hv
  backed _ _ hv := hp.backed_next ho hok hv
  drained hroll hflush _ _ := hp.drained_next hroll hflush
  suits _ _ hv := hp.suits_next hv
  free _ _ hr := free_next hr
  executed _ _ hv _ hb := hp.executed_next ho hv hb
  alone _ _ hv hnop := hp.alone_next ho hv hnop

end

end PlacesOk

/-! ### Runs -/

omit [NeZero W] in
theorem IsReset.not_at (hreset : s.IsReset) {g : Stage N W} {u : ExeUop c} : ¬s.At g u := by
  intro hu
  cases g with
  | slot k =>
    have hvalid := hu.1
    rw [hreset.front.issue k] at hvalid
    cases hvalid
  | exe w =>
    obtain ⟨r, hr, -⟩ := hu
    rw [hreset.exeReg w] at hr
    cases hr
  | alu w =>
    obtain ⟨d, hd⟩ := hu
    rw [(hreset.units w).alu] at hd
    cases hd
  | mulDiv w => exact hu.1 (hreset.units w).mulDiv
  | load w =>
    have hmem : u ∈ (s.units w).loads := hu
    rw [(hreset.units w).loads] at hmem
    cases hmem
  | gone => exact hu

theorem IsReset.placesOk (hreset : s.IsReset) : PlacesOk conf s h where
  lt _ _ hu := (hreset.not_at hu).elim
  stage _ _ hu := (hreset.not_at hu).elim
  distinct w := by
    rw [(hreset.units w).loads]
    exact List.nodup_nil
  row _ _ hu := (hreset.not_at hu).elim
  backed _ _ hu := (hreset.not_at hu).elim
  drained _ _ _ _ hu := hreset.not_at hu
  suits _ _ hu := (hreset.not_at hu).elim
  free w _ _ := (hreset.units w).mulDiv
  executed _ _ hu := (hreset.not_at hu).elim
  alone _ _ hu := (hreset.not_at hu).elim

end Backend

end RiscvSoc
