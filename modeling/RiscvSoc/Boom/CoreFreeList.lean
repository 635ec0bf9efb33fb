import RiscvSoc.Boom.CoreTables

/-!
# The free list against the window

A physical register other than `P0` is free, or mapped, or stale in the window. The three are
counted, and the count is kept: what a bundle takes off the free list it brings into the map table,
what it replaces becomes stale, and what is stale becomes free when its micro-op commits. When the
end of the window is cut off, the registers it had brought in go back to the free list and those it
had replaced go back into the map table.

The allocation list of a branch is what the micro-ops behind it brought in. That is what a
misprediction gives back, and a rollback gives back the same registers row by row.
-/

namespace RiscvSoc

open RenameFreeList RenameStage

variable {c : BOOMConf}

namespace Core

variable {s : Core c} {i : CoreInput c}

/-- The logical registers that are mapped to a physical one. -/
def mappedTo (s : Core c) (p : PReg c) : Finset LReg :=
  Finset.univ.filter fun r => s.ren.mapTable.element r = p

/-- The physical registers some micro-ops took from the free list. -/
def taken (us : List (RobUop c)) : List (PReg c) := (renameLog us).map (·.new)

/-- The physical registers some micro-ops replaced. -/
def stale (us : List (RobUop c)) : List (PReg c) := (renameLog us).map (·.old)

variable (us vs : List (RobUop c)) {p : PReg c}

theorem taken_append : taken (us ++ vs) = taken us ++ taken vs := by
  rw [taken, renameLog_append, List.map_append]
  rfl

theorem stale_append : stale (us ++ vs) = stale us ++ stale vs := by
  rw [stale, renameLog_append, List.map_append]
  rfl

theorem stale_resolve (brinfo : Option (BrResolutionInfo c)) (us : List (RobUop c)) :
    stale (us.map (RobUop.resolve brinfo)) = stale us := by
  rw [stale, renameLog_resolve]
  rfl

theorem mem_taken {us : List (RobUop c)} :
    p ∈ taken us ↔ ∃ u ∈ us, u.needsPreg = true ∧ u.pdst = p := mem_map_new

theorem mem_stale {us : List (RobUop c)} :
    p ∈ stale us ↔ ∃ u ∈ us, u.needsPreg = true ∧ u.stalePdst = p := mem_map_old

/-! ### What the free list sees of a cycle -/

theorem justAllocatedMask_eq_true {ws : Bank c → Bool} :
    s.ren.freeList.justAllocatedMask
      (fun w => s.ren.renMask (s.renInput i) w && ((s.renInput i).decUops w).needsPreg) ws p =
        true ↔ ∃ w, ws w = true ∧ s.disMask i w = true ∧ (s.disUops i w).needsPreg = true ∧
          (s.disUops i w).pdst = p := by
  rw [justAllocatedMask, orR_eq_true]
  refine exists_congr fun w => ?_
  rw [Bool.and_eq_true, Bool.and_eq_true, Bool.and_eq_true, decide_eq_true_eq, and_assoc, and_assoc]
  refine and_congr_right fun _ => and_congr_right fun hdis => and_congr_right fun hneeds => ?_
  have hwrites : s.ren.writes (s.renInput i) w = true := by
    rw [writes_renInput]
    exact Bool.and_eq_true_iff.mpr ⟨hdis, hneeds⟩
  have hpdst := pdst_of_writes hwrites
  rw [reqPregs] at hpdst
  rw [hpdst, Option.some.injEq]
  rfl

theorem mem_taken_newUops : p ∈ taken (s.newUops i) ↔ ∃ w, s.disMask i w = true ∧
    (s.disUops i w).needsPreg = true ∧ (s.disUops i w).pdst = p := by
  rw [mem_taken]
  constructor
  · rintro ⟨u, hu, h⟩
    obtain ⟨w, hw, rfl⟩ := mem_newUops.mp hu
    exact ⟨w, hw, h⟩
  · rintro ⟨w, hw, h⟩
    exact ⟨_, mem_newUops.mpr ⟨w, hw, rfl⟩, h⟩

/-- What is rolled back in this cycle. -/
def rolled (s : Core c) : List (RobUop c) :=
  s.rob.window.filter fun u => s.rob.rollsBack (robSlot u.robIdx)

namespace TablesOk

variable (hs : s.TablesOk)
include hs

variable {p : PReg c}

theorem enqMask_eq_true (ho : s.Ordered) (hp : p ≠ 0) :
    enqMask (RenameStage.enq (s.renInput i))
      (rollbackPdst (s.renInput i)) p = true ↔
        p ∈ stale (s.rob.window.filter s.commits) ∨ p ∈ taken s.rolled := by
  rw [enqMask, orR_eq_true, mem_stale, mem_taken]
  have henq : ∀ w, RenameStage.enq (s.renInput i) w =
      if s.rob.willCommit w && decide ((s.rob.comUops w).ldstRtype = .fix) &&
        decide ((s.rob.comUops w).stalePdst ≠ 0) then some (s.rob.comUops w).stalePdst
      else none := fun _ => rfl
  have hback : ∀ w, rollbackPdst (s.renInput i) w =
      if s.rob.comRbkValids w && decide ((s.rob.comUops w).pdst ≠ 0) &&
        decide ((s.rob.comUops w).ldstRtype = .fix) then some (s.rob.comUops w).pdst
      else none := fun _ => rfl
  by_cases hroll : s.rob.state = .rollback
  · -- nothing commits
    have hnocom : ∀ w, s.rob.willCommit w = false := Rob.willCommit_of_rollback hroll
    have hidx : s.rob.comIdx = s.rob.tail := if_pos hroll
    have hleft : ¬∃ u ∈ s.rob.window.filter s.commits, u.needsPreg = true ∧ u.stalePdst = p := by
      rintro ⟨u, hu, _⟩
      exact Rob.not_rollback_of_commits (List.mem_filter.mp hu).2 hroll
    rw [or_iff_right hleft]
    have hslot : ∀ w, decide ((RenameStage.enq (s.renInput i) w).or
        (rollbackPdst (s.renInput i) w) = some p) = true ↔
        (s.rob.entry (s.rob.tail, w)).val = true ∧
          (s.rob.entry (s.rob.tail, w)).uop.ldstRtype = .fix ∧
            (s.rob.entry (s.rob.tail, w)).uop.pdst = p := by
      intro w
      rw [decide_eq_true_eq, henq, hnocom, hback, Rob.comRbkValids, Rob.comUops, hidx,
        decide_eq_true hroll]
      simp only [Bool.false_and, Bool.false_eq_true, if_false, Option.none_or, Bool.true_and,
        Bool.and_eq_true, decide_eq_true_eq, Option.ite_none_right_eq_some, Option.some.injEq]
      constructor
      · rintro ⟨⟨⟨⟨hval, hfix⟩, _⟩, _⟩, hpdst⟩
        exact ⟨hval, hfix, hpdst⟩
      · rintro ⟨hval, hfix, hpdst⟩
        exact ⟨⟨⟨⟨hval, hfix⟩, hpdst ▸ hp⟩, hfix⟩, hpdst⟩
    constructor
    · rintro ⟨w, hw⟩
      obtain ⟨hval, hfix, hpdst⟩ := (hslot w).mp hw
      have hmem : (s.rob.entry (s.rob.tail, w)).uop ∈ s.rob.window :=
        Rob.mem_window.mpr ⟨_, hval, rfl⟩
      refine ⟨_, List.mem_filter.mpr ⟨hmem, ?_⟩, ?_, hpdst⟩
      · rw [ho.shaped.addressed _ hval]
        exact Rob.rollsBack_eq_true.mpr ⟨hroll, rfl⟩
      · by_contra hidle
        rw [Bool.not_eq_true] at hidle
        exact hp (hpdst ▸ (hs.idle _ hmem hfix hidle).1)
    · rintro ⟨u, hu, hneeds, hpdst⟩
      obtain ⟨hu, hback⟩ := List.mem_filter.mp hu
      obtain ⟨x, hval, rfl⟩ := Rob.mem_window.mp hu
      rw [ho.shaped.addressed x hval] at hback
      have hrow : x = (s.rob.tail, x.2) := Prod.ext (Rob.rollsBack_eq_true.mp hback).2 rfl
      refine ⟨x.2, (hslot x.2).mpr ?_⟩
      rw [← hrow]
      exact ⟨hval, (needsPreg_eq_true.mp hneeds).1, hpdst⟩
  · -- nothing is rolled back
    have hidx : s.rob.comIdx = s.rob.head := if_neg hroll
    have hright : ¬∃ u ∈ s.rolled, u.needsPreg = true ∧ u.pdst = p := by
      rintro ⟨u, hu, _⟩
      exact hroll (Rob.rollsBack_eq_true.mp (List.mem_filter.mp hu).2).1
    rw [or_iff_left hright]
    have hslot : ∀ w, decide ((RenameStage.enq (s.renInput i) w).or
        (rollbackPdst (s.renInput i) w) = some p) = true ↔
        s.rob.willCommit w = true ∧ (s.rob.entry (s.rob.head, w)).uop.ldstRtype = .fix ∧
          (s.rob.entry (s.rob.head, w)).uop.stalePdst = p := by
      intro w
      rw [decide_eq_true_eq, henq, hback, Rob.comRbkValids, Rob.comUops, hidx,
        decide_eq_false hroll]
      simp only [Bool.false_and, Bool.false_eq_true, if_false, Option.or_none,
        Bool.and_eq_true, decide_eq_true_eq, Option.ite_none_right_eq_some, Option.some.injEq]
      constructor
      · rintro ⟨⟨⟨hcom, hfix⟩, _⟩, hstale⟩
        exact ⟨hcom, hfix, hstale⟩
      · rintro ⟨hcom, hfix, hstale⟩
        exact ⟨⟨⟨hcom, hfix⟩, hstale ▸ hp⟩, hstale⟩
    constructor
    · rintro ⟨w, hw⟩
      obtain ⟨hcom, hfix, hstale⟩ := (hslot w).mp hw
      have hcommits : s.rob.commits (s.rob.head, w) = true := Rob.commits_eq_true.mpr ⟨rfl, hcom⟩
      have hval := Rob.val_of_commits hcommits
      have hmem : (s.rob.entry (s.rob.head, w)).uop ∈ s.rob.window :=
        Rob.mem_window.mpr ⟨_, hval, rfl⟩
      refine ⟨_, List.mem_filter.mpr ⟨hmem, ?_⟩, ?_, hstale⟩
      · rw [commits, ho.shaped.addressed _ hval]
        exact hcommits
      · by_contra hidle
        rw [Bool.not_eq_true] at hidle
        exact hp (hstale ▸ (hs.idle _ hmem hfix hidle).2)
    · rintro ⟨u, hu, hneeds, hstale⟩
      obtain ⟨hu, hcom⟩ := List.mem_filter.mp hu
      obtain ⟨x, hval, rfl⟩ := Rob.mem_window.mp hu
      rw [commits, ho.shaped.addressed x hval, Rob.commits_eq_true] at hcom
      have hrow : x = (s.rob.head, x.2) := Prod.ext hcom.1 rfl
      refine ⟨x.2, (hslot x.2).mpr ?_⟩
      rw [← hrow]
      exact ⟨hcom.2, (needsPreg_eq_true.mp hneeds).1, hstale⟩

/-! ### The balance -/

omit hs in
theorem stale_window (ho : s.Ordered) (p : PReg c) :
    (stale s.rob.window).count p = (stale (s.rob.window.filter s.commits)).count p +
      (stale (s.rob.window.filter fun u =>
        !s.rob.removes (s.robInput i) (robSlot u.robIdx))).count p +
      (stale (s.rob.window.filter (s.dies i))).count p := by
  conv_lhs => rw [← ho.window_eq (i := i), ← ho.survivors_eq]
  rw [stale_append, stale_append, List.count_append, List.count_append]

omit hs in
theorem stale_window_next (ho : s.Ordered) (p : PReg c) :
    (stale (s.next i).rob.window).count p =
      (stale (s.rob.window.filter fun u =>
        !s.rob.removes (s.robInput i) (robSlot u.robIdx))).count p +
      (stale (s.newUops i)).count p := by
  rw [ho.window_next, stale_append, stale_resolve, List.count_append]

theorem mapped_dies (ho : s.Ordered) (p : PReg c) :
    (s.mappedTo p).card + (stale (s.rob.window.filter (s.dies i))).count p =
      (Finset.univ.filter fun r => s.keptMap i r = p).card +
        (taken (s.rob.window.filter (s.dies i))).count p := by
  have hcard := card_replay (hs.consistent_dies ho (i := i)) p
  rwa [hs.replay_dies ho] at hcard

theorem mapped_next (ho : s.Ordered) (p : PReg c) :
    ((s.next i).mappedTo p).card + (stale (s.newUops i)).count p =
      (Finset.univ.filter fun r => s.keptMap i r = p).card + (taken (s.newUops i)).count p := by
  have hcard := card_replay (hs.consistent_kept ho (i := i)) p
  have hnext : (s.next i).ren.mapTable.element =
      replay (s.keptMap i) (renameLog (s.newUops i)) := by
    rw [hs.element_next ho, ho.renameLog_timeline_next, replay_append]
    rfl
  rwa [← hnext] at hcard

theorem balance_eq (hp : p ≠ 0) : (if s.ren.freeList.freeList p then 1 else 0) +
    (s.mappedTo p).card + (stale s.rob.window).count p = 1 := hs.balance p hp

/-- A register that is free was taken by nobody in the window, any other by one at most. -/
theorem free_add_taken_le (hp : p ≠ 0) :
    (if s.ren.freeList.freeList p then 1 else 0) + (taken s.rob.window).count p ≤ 1 := by
  have hcons := hs.consistent
  rw [timeline, renameLog_append, consistent_append] at hcons
  have hcard := card_replay hcons.2 p
  rw [← replay_append, ← renameLog_append] at hcard
  have hbal := hs.balance_eq hp
  have htable : s.mappedTo p =
      Finset.univ.filter fun r =>
        replay (fun _ => 0) (renameLog (s.committed ++ s.rob.window)) r = p := by
    rw [mappedTo, hs.element]
    rfl
  rw [← htable] at hcard
  rw [stale] at hbal
  rw [taken]
  omega

/-- No two micro-ops in the window took the same register. -/
theorem taken_window_le (hp : p ≠ 0) : (taken s.rob.window).count p ≤ 1 :=
  (Nat.le_add_left _ _).trans (hs.free_add_taken_le hp)

theorem freeList_of_taken (hp : p ≠ 0) (h : p ∈ taken s.rob.window) :
    s.ren.freeList.freeList p = false := by
  have hle := hs.free_add_taken_le hp
  have hpos : 0 < (taken s.rob.window).count p := List.count_pos_iff.mpr h
  rw [← Bool.not_eq_true]
  intro hfree
  rw [hfree, if_pos rfl] at hle
  omega

omit hs in
theorem taken_newUops_le (p : PReg c) : (taken (s.newUops i)).count p ≤ 1 :=
  List.nodup_iff_count_le_one.mp nodup_newUops p

theorem freeList_next (ho : s.Ordered) (hp : p ≠ 0) :
    (s.next i).ren.freeList.freeList p = true ↔
      s.ren.freeList.freeList p = true ∧ p ∉ taken (s.newUops i) ∨
        p ∈ stale (s.rob.window.filter s.commits) ∨ p ∈ taken (s.rob.window.filter (s.dies i)) := by
  have henq := hs.enqMask_eq_true ho (i := i) hp
  by_cases hmis : ∃ r, s.mispredicted r
  · obtain ⟨r, hr⟩ := hmis
    have hpend := mem_pending_of_brReg hr
    have hnew : s.newUops i = [] :=
      newUops_of_kill (.inl (mispredicts_eq_true.mpr ⟨r, hr⟩))
    have hroll : ∀ u ∈ s.rob.window, s.rob.rollsBack (robSlot u.robIdx) = false := by
      intro u hu
      obtain ⟨x, hx, rfl⟩ := Rob.mem_window.mp hu
      rw [ho.shaped.addressed x hx]
      exact ho.not_rollsBack hpend hx
    have hdead : p ∈ taken (s.rob.window.filter (s.dies i)) ↔
        s.ren.freeList.allocationLists r.brTag p = true := by
      rw [hs.allocated r hpend, mem_taken]
      constructor
      · rintro ⟨u, hu, hneeds, hpdst⟩
        obtain ⟨hu, hdies⟩ := List.mem_filter.mp hu
        rw [ho.dies_iff hu, hroll u hu] at hdies
        rcases hdies with ⟨r', hr', hlt⟩ | hdies
        · rw [mispredicted, hr] at hr'
          cases hr'
          exact ⟨u, hu, hneeds, hpdst, hlt⟩
        · cases hdies
      · rintro ⟨u, hu, hneeds, hpdst, hlt⟩
        exact ⟨u, List.mem_filter.mpr ⟨hu, (ho.dies_iff hu).mpr (.inl ⟨r, hr, hlt⟩)⟩, hneeds, hpdst⟩
    have hrolled : s.rolled = [] :=
      List.filter_eq_nil_iff.mpr fun u hu => by rw [hroll u hu]; exact Bool.false_ne_true
    have hnext : (s.next i).ren.freeList.freeList p =
        (s.ren.freeList.allocationLists r.brTag p || s.ren.freeList.freeList p ||
          enqMask (RenameStage.enq (s.renInput i))
            (rollbackPdst (s.renInput i)) p) := by
      show (s.ren.next (s.renInput i)).freeList.freeList p = _
      simp only [RenameStage.next, RenameFreeList.next, mispredictTag_renInput hr]
    rw [hnext, Bool.or_eq_true, Bool.or_eq_true, henq, hdead, hnew, hrolled]
    have hno : p ∉ taken ([] : List (RobUop c)) := List.not_mem_nil
    simp only [hno, or_false, not_false_eq_true, and_true]
    exact or_assoc.trans (or_comm.trans or_assoc)
  · rw [not_exists] at hmis
    have hdead : s.rob.window.filter (s.dies i) = s.rolled := by
      refine List.filter_congr fun u hu => ?_
      rw [Bool.eq_iff_iff, ho.dies_iff hu]
      refine or_iff_right ?_
      rintro ⟨r, hr, _⟩
      exact hmis r hr
    have hnext : (s.next i).ren.freeList.freeList p =
        (s.ren.freeList.freeList p && !s.ren.freeList.justAllocatedMask
          (fun w => s.ren.renMask (s.renInput i) w && ((s.renInput i).decUops w).needsPreg)
            (fun _ => true) p ||
          enqMask (RenameStage.enq (s.renInput i))
            (rollbackPdst (s.renInput i)) p) := by
      show (s.ren.next (s.renInput i)).freeList.freeList p = _
      simp only [RenameStage.next, RenameFreeList.next, mispredictTag_renInput_none hmis]
    have htaken : s.ren.freeList.justAllocatedMask
        (fun w => s.ren.renMask (s.renInput i) w && ((s.renInput i).decUops w).needsPreg)
          (fun _ => true) p = true ↔ p ∈ taken (s.newUops i) := by
      rw [justAllocatedMask_eq_true, mem_taken_newUops]
      simp only [true_and]
    rw [hnext, Bool.or_eq_true, Bool.and_eq_true, Bool.not_eq_true', ← Bool.not_eq_true, htaken,
      henq, hdead]

theorem balance_next (ho : s.Ordered) (hp : p ≠ 0) :
    (if (s.next i).ren.freeList.freeList p then 1 else 0) + ((s.next i).mappedTo p).card +
      (stale (s.next i).rob.window).count p = 1 := by
  have hbal := hs.balance_eq hp
  have hdies := hs.mapped_dies ho (i := i) p
  have hnew := hs.mapped_next ho (i := i) p
  have hwindow := stale_window ho (i := i) p
  have hwindow' := stale_window_next ho (i := i) p
  have hle := taken_newUops_le (s := s) (i := i) p
  have hfree := hs.freeList_next ho (i := i) hp
  rw [← List.count_pos_iff, ← List.count_pos_iff, ← List.count_pos_iff] at hfree
  have hoff : 0 < (taken (s.newUops i)).count p → s.ren.freeList.freeList p = true := by
    intro hpos
    obtain ⟨u, hu, hneeds, rfl⟩ := mem_taken.mp (List.count_pos_iff.mp hpos)
    exact (free_of_newUops hu hneeds).2
  cases hf : s.ren.freeList.freeList p with
  | true =>
    rw [hf] at hbal hfree
    simp only [if_true, true_and] at hbal hfree
    split
    · rename_i h
      have := hfree.mp h
      omega
    · rename_i h
      have := mt hfree.mpr h
      omega
  | false =>
    rw [hf] at hbal hfree hoff
    simp only [Bool.false_eq_true, if_false, false_and, false_or, imp_false] at hbal hfree hoff
    split
    · rename_i h
      have := hfree.mp h
      omega
    · rename_i h
      have := mt hfree.mpr h
      omega

/-! ### The allocation lists -/

/-- The registers of the micro-ops behind a branch, once a mispredicted one has cut them off. -/
theorem taken_behind (ho : s.Ordered) {r : RobUop c} {u : RobUop c} (hu : u ∈ s.rob.window)
    (hneeds : u.needsPreg = true) (hle : u.seq ≤ r.seq) :
    ¬∃ v ∈ s.rob.window, v.needsPreg = true ∧ v.pdst = u.pdst ∧ r.seq < v.seq := by
  rintro ⟨v, hv, hvneeds, heq, hlt⟩
  have hsplit := filter_append_filter_neg (p := fun u => decide (u.seq ≤ r.seq)) (l := s.rob.window)
    (ho.sorted.imp fun hlt hle => decide_eq_true (hlt.le.trans (of_decide_eq_true hle)))
  have hcount := hs.taken_window_le (hs.pdst_ne u hu hneeds)
  rw [← hsplit, taken_append, List.count_append] at hcount
  have hfront : 0 < (taken (s.rob.window.filter fun u => decide (u.seq ≤ r.seq))).count u.pdst :=
    List.count_pos_iff.mpr
      (mem_taken.mpr ⟨u, List.mem_filter.mpr ⟨hu, decide_eq_true hle⟩, hneeds, rfl⟩)
  have hback : 0 < (taken (s.rob.window.filter fun u => !decide (u.seq ≤ r.seq))).count u.pdst := by
    refine List.count_pos_iff.mpr
      (mem_taken.mpr ⟨v, List.mem_filter.mpr ⟨hv, ?_⟩, hvneeds, heq⟩)
    rw [decide_eq_false hlt.not_ge]
    rfl
  omega

omit hs in
theorem behind_next (ho : s.Ordered) {b : RobUop c} (hb : b ∈ s.pending) (p : PReg c) :
    (∃ u ∈ (s.next i).rob.window, u.needsPreg = true ∧ u.pdst = p ∧ b.seq < u.seq) ↔
      (∃ u ∈ s.rob.window, u.needsPreg = true ∧ u.pdst = p ∧ b.seq < u.seq ∧
        ∀ r, s.mispredicted r → u.seq ≤ r.seq) ∨ p ∈ taken (s.newUops i) := by
  constructor
  · rintro ⟨u', hu', hneeds, hpdst, hlt⟩
    rcases ho.mem_window_next.mp hu' with ⟨u, hu, hkeep, rfl⟩ | hnew
    · exact .inl ⟨u, hu, hneeds, hpdst, hlt, ((ho.removes_eq_false hu).mp hkeep).2.1⟩
    · exact .inr (mem_taken.mpr ⟨u', hnew, hneeds, hpdst⟩)
  · rintro (⟨u, hu, hneeds, hpdst, hlt, hle⟩ | hnew)
    · have hcom : s.commits u = false := by
        rw [← Bool.not_eq_true]
        intro hcom
        have hbcom := ho.commits_of_seq_le hu (ho.mem_window hb) hlt.le hcom
        rw [commits, ho.not_commits hb] at hbcom
        cases hbcom
      have hroll : s.rob.rollsBack (robSlot u.robIdx) = false := by
        obtain ⟨x, hx, rfl⟩ := Rob.mem_window.mp hu
        rw [ho.shaped.addressed x hx]
        exact ho.not_rollsBack hb hx
      exact ⟨_, ho.mem_window_next.mpr (.inl ⟨u, hu,
        (ho.removes_eq_false hu).mpr ⟨hcom, hle, hroll⟩, rfl⟩), hneeds, hpdst, hlt⟩
    · obtain ⟨u, hu, hneeds, hpdst⟩ := mem_taken.mp hnew
      exact ⟨u, ho.mem_window_next.mpr (.inr hu), hneeds, hpdst,
        (ho.lt_count b (ho.mem_window hb)).trans_le (seq_newUops hu).1⟩

omit hs in
theorem allocationLists_next (hmis : ∀ r, ¬s.mispredicted r) (t : Fin c.maxBrCount) (p : PReg c) :
    (s.next i).ren.freeList.allocationLists t p =
      match brCleared (renBrTags (s.renInput i)) t with
      | some w => s.ren.freeList.justAllocatedMask
          (fun w => s.ren.renMask (s.renInput i) w && ((s.renInput i).decUops w).needsPreg)
            (fun x => decide (w < x)) p
      | none => s.ren.freeList.allocationLists t p || s.ren.freeList.justAllocatedMask
          (fun w => s.ren.renMask (s.renInput i) w && ((s.renInput i).decUops w).needsPreg)
            (fun _ => true) p := by
  show (s.ren.next (s.renInput i)).freeList.allocationLists t p = _
  cases hcleared : brCleared (renBrTags (s.renInput i)) t with
  | none =>
    simp only [RenameStage.next, RenameFreeList.next, mispredictTag_renInput_none hmis, hcleared]
  | some w =>
    simp only [RenameStage.next, RenameFreeList.next, mispredictTag_renInput_none hmis, hcleared]

theorem allocated_next (ho : s.Ordered) : ∀ b ∈ (s.next i).pending, ∀ p,
    (s.next i).ren.freeList.allocationLists b.brTag p = true ↔
      ∃ u ∈ (s.next i).rob.window, u.needsPreg = true ∧ u.pdst = p ∧ b.seq < u.seq := by
  intro b' hb' p
  rcases mem_pending_next.mp hb' with ⟨b, hb, hf⟩ | hnew
  · have hpend := mem_pending_of_brs hb
    obtain ⟨_, _, rfl⟩ := brFilter_eq_some.mp hf
    simp only [RobUop.resolve_brTag, RobUop.resolve_seq]
    rw [behind_next ho hpend]
    by_cases hmis : ∃ r, s.mispredicted r
    · obtain ⟨r, hr⟩ := hmis
      have hrpend := mem_pending_of_brReg hr
      have hlists : (s.next i).ren.freeList.allocationLists b.brTag p =
          (s.ren.freeList.allocationLists b.brTag p &&
            !s.ren.freeList.allocationLists r.brTag p) := by
        show (s.ren.next (s.renInput i)).freeList.allocationLists b.brTag p = _
        simp only [RenameStage.next, RenameFreeList.next, mispredictTag_renInput hr]
      rw [hlists, Bool.and_eq_true, Bool.not_eq_true', ← Bool.not_eq_true, hs.allocated b hpend,
        hs.allocated r hrpend, newUops_of_kill (.inl (mispredicts_eq_true.mpr ⟨r, hr⟩))]
      constructor
      · rintro ⟨⟨u, hu, hneeds, hpdst, hlt⟩, hno⟩
        refine .inl ⟨u, hu, hneeds, hpdst, hlt, fun r' hr' => ?_⟩
        rw [mispredicted, hr] at hr'
        cases hr'
        exact not_lt.mp fun hlt' => hno ⟨u, hu, hneeds, hpdst, hlt'⟩
      · rintro (⟨u, hu, hneeds, rfl, hlt, hle⟩ | hno)
        · exact ⟨⟨u, hu, hneeds, rfl, hlt⟩, hs.taken_behind ho hu hneeds (hle r hr)⟩
        · exact absurd hno List.not_mem_nil
    · rw [not_exists] at hmis
      have hnone : brCleared (renBrTags (s.renInput i)) b.brTag = none :=
        priorityEncoder_eq_none.mpr fun w => decide_eq_false (renBrTags_ne ho hpend w)
      rw [allocationLists_next hmis, hnone]
      dsimp only
      rw [Bool.or_eq_true, hs.allocated b hpend, justAllocatedMask_eq_true, mem_taken_newUops]
      simp only [true_and]
      refine or_congr_left (exists_congr fun u => and_congr_right fun _ => ?_)
      exact and_congr_right fun _ => and_congr_right fun _ =>
        (and_iff_left fun r hr => absurd hr (hmis r)).symm
  · obtain ⟨w, hw, rfl⟩ := mem_newBrs.mp hnew
    have hdis := (takesTag_eq_true.mp hw).1
    have hmis : ∀ r, ¬s.mispredicted r := by
      intro r hr
      have hno := (goes_of_disMask hdis).noMispredict
      rw [mispredicts_eq_true.mpr ⟨r, hr⟩] at hno
      cases hno
    have hsome : brCleared (renBrTags (s.renInput i))
        (s.disUops i w).brTag = some w := by
      refine priorityEncoder_eq_some.mpr ⟨decide_eq_true ((renBrTags_eq_iff hw).mpr rfl), ?_⟩
      intro v hv
      exact decide_eq_false fun h => hv.ne ((renBrTags_eq_iff hw).mp h)
    rw [allocationLists_next hmis, hsome]
    dsimp only
    rw [justAllocatedMask_eq_true]
    constructor
    · rintro ⟨x, hx, hxdis, hneeds, hpdst⟩
      exact ⟨_, ho.mem_window_next.mpr (.inr (mem_newUops.mpr ⟨x, hxdis, rfl⟩)), hneeds, hpdst,
        (seq_disUops_lt hdis hxdis).mpr (of_decide_eq_true hx)⟩
    · rintro ⟨u', hu', hneeds, hpdst, hlt⟩
      rcases ho.mem_window_next.mp hu' with ⟨u, hu, _, rfl⟩ | hunew
      · have hle := (seq_newUops (mem_newUops.mpr ⟨w, hdis, rfl⟩)).1
        exact absurd hlt ((ho.lt_count u hu).trans_le hle).not_gt
      · obtain ⟨x, hxdis, rfl⟩ := mem_newUops.mp hunew
        exact ⟨x, decide_eq_true ((seq_disUops_lt hdis hxdis).mp hlt), hxdis, hneeds, hpdst⟩

/-- **One cycle keeps the rename tables in step with the window.** -/
theorem next (ho : s.Ordered) : (s.next i).TablesOk where
  element := hs.element_next ho
  consistent := hs.consistent_next ho
  pdst_ne := hs.pdst_ne_next ho
  idle := hs.idle_next ho
  renamed := hs.renamed_next ho
  copies := hs.copies_next ho
  balance _ hp := hs.balance_next ho hp
  allocated := hs.allocated_next ho

end TablesOk

theorem IsReset.tablesOk (h : s.IsReset) : s.TablesOk := by
  have hwin := window_of_isReset h.rob
  have hpend : s.pending = [] := by
    rw [pending, h.brs, h.brReg]
    rfl
  have helement : s.ren.mapTable.element = fun _ => 0 := funext h.ren.element
  constructor
  case balance =>
    intro p hp
    rw [hwin, helement, h.ren.freeList p, decide_eq_true hp]
    simp [renameLog, Ne.symm hp]
  all_goals simp [hwin, hpend, helement, timeline, h.committed, renameLog, replay_nil, Consistent]

/-- **In every reachable state the rename tables are in step with the window.** -/
theorem reachable_tablesOk (h : (machine c).Reachable s) : s.TablesOk := by
  have hboth : s.Ordered ∧ s.TablesOk := by
    refine Machine.invariant (I := fun s => s.Ordered ∧ s.TablesOk)
      (fun _ (h : IsReset _) => ⟨h.ordered, h.tablesOk⟩) ?_ s h
    rintro s i _ _ ⟨ho, hs⟩ ⟨hok, rfl⟩
    exact ⟨ho.next hok, hs.next ho⟩
  exact hboth.2

/-! ### Where a register is -/

theorem count_stale (us : List (RobUop c)) (p : PReg c) : (stale us).count p =
    us.countP fun u => u.needsPreg && decide (u.stalePdst = p) := by
  rw [stale, renameLog, List.map_map, List.count, List.countP_map, List.countP_filter]
  refine List.countP_congr fun u _ => ?_
  simp only [Function.comp_apply, Bool.and_eq_true, beq_iff_eq, decide_eq_true_eq]
  exact And.comm

theorem needsPreg_eq_ldstVal (u : DecUop c) : u.needsPreg = u.ldstVal := by
  cases hval : u.ldstVal with
  | true => exact needsPreg_of_ldstVal hval
  | false => rw [DecUop.needsPreg, hval, Bool.false_and]

/-- Register `p` is what the valid entry `x` with a destination replaced. -/
def StaleAt (s : Core c) (p : PReg c) (x : RobSlot c) : Prop :=
  (s.rob.entry x).val = true ∧ (s.rob.entry x).uop.ldstVal = true ∧
    (s.rob.entry x).uop.stalePdst = p

/-- **A register is in exactly one place**, and there only once. -/
inductive InOnePlace (s : Core c) (p : PReg c) : Prop
  | free (h : s.ren.freeList.freeList p = true) (hmap : ∀ r, s.ren.mapTable.element r ≠ p)
      (hstale : ∀ x, ¬s.StaleAt p x)
  | mapped (h : ∃! r, s.ren.mapTable.element r = p) (hfree : s.ren.freeList.freeList p = false)
      (hstale : ∀ x, ¬s.StaleAt p x)
  | stale (h : ∃! x, s.StaleAt p x) (hfree : s.ren.freeList.freeList p = false)
      (hmap : ∀ r, s.ren.mapTable.element r ≠ p)

/-- The slots that hold a register as stale. -/
def staleSlots (s : Core c) (p : PReg c) : List (RobSlot c) :=
  s.rob.slots.filter fun x =>
    (s.rob.entry x).uop.needsPreg && decide ((s.rob.entry x).uop.stalePdst = p)

theorem mem_staleSlots {p : PReg c} {x : RobSlot c} : x ∈ s.staleSlots p ↔ s.StaleAt p x := by
  rw [staleSlots, List.mem_filter, Rob.mem_slots, Bool.and_eq_true, decide_eq_true_eq,
    needsPreg_eq_ldstVal]
  rfl

theorem length_staleSlots (s : Core c) (p : PReg c) :
    (s.staleSlots p).length = (stale s.rob.window).count p := by
  rw [count_stale, Rob.window, List.countP_map, staleSlots, List.countP_eq_length_filter]
  rfl

theorem TablesOk.inOnePlace (hs : s.TablesOk) {p : PReg c} (hp : p ≠ 0) : s.InOnePlace p := by
  have hbal := hs.balance_eq hp
  rw [← length_staleSlots] at hbal
  have hnomap : (s.mappedTo p).card = 0 → ∀ r, s.ren.mapTable.element r ≠ p := by
    intro h r hr
    have hmem : r ∈ s.mappedTo p := Finset.mem_filter.mpr ⟨Finset.mem_univ r, hr⟩
    rw [Finset.card_eq_zero.mp h] at hmem
    exact Finset.notMem_empty r hmem
  have hnostale : (s.staleSlots p).length = 0 → ∀ x, ¬s.StaleAt p x := by
    intro h x hx
    rw [← mem_staleSlots, List.length_eq_zero_iff.mp h] at hx
    exact List.not_mem_nil hx
  cases hfree : s.ren.freeList.freeList p with
  | true =>
    rw [hfree, if_pos rfl] at hbal
    exact .free hfree (hnomap (by omega)) (hnostale (by omega))
  | false =>
    rw [hfree, if_neg (by simp), Nat.zero_add] at hbal
    rcases Nat.eq_zero_or_pos (s.mappedTo p).card with hzero | hpos
    · obtain ⟨x, hx⟩ := List.length_eq_one_iff.mp (by omega : (s.staleSlots p).length = 1)
      refine .stale ⟨x, ?_, fun y hy => ?_⟩ hfree (hnomap hzero)
      · exact mem_staleSlots.mp (hx ▸ List.mem_singleton.mpr rfl)
      · exact List.mem_singleton.mp (hx ▸ mem_staleSlots.mpr hy)
    · obtain ⟨r, hr⟩ := Finset.card_eq_one.mp (by omega : (s.mappedTo p).card = 1)
      refine .mapped ⟨r, ?_, fun r' hr' => ?_⟩ hfree (hnostale (by omega))
      · have hmem : r ∈ s.mappedTo p := hr ▸ Finset.mem_singleton_self r
        exact (Finset.mem_filter.mp hmem).2
      · have hmem : r' ∈ s.mappedTo p := Finset.mem_filter.mpr ⟨Finset.mem_univ r', hr'⟩
        exact Finset.mem_singleton.mp (hr ▸ hmem)

/-- **Physical registers are conserved.** In every reachable state each register but `P0` is in
exactly one place, so what a bundle takes is neither mapped nor needed by anyone. -/
theorem preg_conserved (c : BOOMConf) :
    (∀ (s : Core c), (machine c).Reachable s → ∀ p, p ≠ 0 → s.InOnePlace p) ∧
    ∀ (s : Core c) (i : CoreInput c), (machine c).Reachable s → ∀ u ∈ s.newUops i,
      u.ldstVal = true → u.pdst ≠ 0 ∧ s.ren.freeList.freeList u.pdst = true ∧
        (∀ r, s.ren.mapTable.element r ≠ u.pdst) ∧ ∀ x, ¬s.StaleAt u.pdst x := by
  refine ⟨fun s h p hp => (reachable_tablesOk h).inOnePlace hp, fun s i h u hu hval => ?_⟩
  rw [← needsPreg_eq_ldstVal] at hval
  obtain ⟨hne, hfree⟩ := free_of_newUops hu hval
  refine ⟨hne, hfree, ?_⟩
  cases (reachable_tablesOk h).inOnePlace hne with
  | free _ hmap hstale => exact ⟨hmap, hstale⟩
  | mapped _ hno _ =>
    rw [hfree] at hno
    cases hno
  | stale _ hno _ =>
    rw [hfree] at hno
    cases hno

theorem TablesOk.freeUnmapped (hs : s.TablesOk) : s.ren.FreeUnmapped := by
  intro r hne
  cases hs.inOnePlace hne with
  | free _ hmap _ => exact absurd rfl (hmap r)
  | mapped _ hno _ => exact hno
  | stale _ hno _ => exact hno

/-- In every reachable state a bundle is renamed as its instructions would be in turn. -/
theorem bundleSequential (h : (machine c).Reachable s) :
    s.ren.BundleSequential (s.renInput i) :=
  (reachable_tablesOk h).freeUnmapped.sequential decodeWidth_le

/-! ### Recovery -/

/-- When the rollback completes nothing is left in the buffer. -/
theorem Ordered.window_next_of_rollback (ho : s.Ordered) (hroll : s.rob.state = .rollback)
    (htail : s.rob.tail = s.rob.head) : (s.next i).rob.window = [] := by
  rw [List.eq_nil_iff_forall_not_mem]
  intro u' hu'
  rcases ho.mem_window_next.mp hu' with ⟨u, hu, hkeep, _⟩ | hnew
  · obtain ⟨x, hx, rfl⟩ := Rob.mem_window.mp hu
    have hle := ho.shaped.le_tail x hx
    rw [htail, rowPlace_self, Nat.le_zero] at hle
    have hrow : x.1 = s.rob.tail := by
      rw [htail]
      exact rowPlace_inj (hle.trans (rowPlace_self s.rob.head).symm)
    have hback := ((ho.removes_eq_false hu).mp hkeep).2.2
    rw [ho.shaped.addressed x hx, ← Bool.not_eq_true, Rob.rollsBack_eq_true] at hback
    exact hback ⟨hroll, hrow⟩
  · rw [newUops_of_kill (.inr (.inr (by rw [hroll]; decide)))] at hnew
    cases hnew

/-- **The map table is recovered.** After a mispredicted branch is resolved it is the table as it
was when the branch had been renamed. After a rollback it is what the committed micro-ops make of
the table at reset. At any time it is what the micro-ops that count make of it. -/
theorem mapTable_recovered (c : BOOMConf) :
    (∀ (s : Core c) (i : CoreInput c), (machine c).Reachable s →
      (s.next i).ren.mapTable.element =
        replay (fun _ => 0) (renameLog ((s.next i).committed ++ (s.next i).rob.window)) ∧
      (∀ r, s.mispredicted r → (s.next i).ren.mapTable.element = s.renamed r.seq ∧
        ∀ u ∈ (s.next i).rob.window, u.seq ≤ r.seq) ∧
      (s.rob.state = .rollback → s.rob.tail = s.rob.head →
        (s.next i).rob.window = [] ∧ (s.next i).ren.mapTable.element =
          replay (fun _ => 0) (renameLog (s.next i).committed))) ∧
    ∀ (s : Core c) (i : CoreInput c), (machine c).Reachable s → ∀ w, s.disMask i w = true →
      (s.next i).renamed (s.disUops i w).seq = s.tableAfter i (w + 1) ∧
        ∀ q < s.count, (s.next i).renamed q = s.renamed q := by
  refine ⟨fun s i h => ?_, fun s i _ w hw =>
    ⟨TablesOk.renamed_next_of_new hw, fun q hq => TablesOk.renamed_next_of_lt hq⟩⟩
  have ho := reachable_ordered h
  have hs := reachable_tablesOk h
  have htable := (hs.next ho (i := i)).element
  refine ⟨htable, fun r hr => ⟨?_, fun u' hu' => ?_⟩, fun hroll htail => ?_⟩
  · funext k
    have hpend := mem_pending_of_brReg hr
    show (s.ren.next (s.renInput i)).mapTable.element k = _
    simp only [RenameStage.next, RenameMapTable.next, TablesOk.mispredictTag_renInput hr]
    rw [hs.copies r hpend]
  · rcases ho.mem_window_next.mp hu' with ⟨u, hu, hkeep, rfl⟩ | hnew
    · exact ((ho.removes_eq_false hu).mp hkeep).2.1 r hr
    · rw [newUops_of_kill (.inl (mispredicts_eq_true.mpr ⟨r, hr⟩))] at hnew
      cases hnew
  · have hempty := ho.window_next_of_rollback (i := i) hroll htail
    rw [timeline, hempty, List.append_nil] at htable
    exact ⟨hempty, htable⟩

end Core

end RiscvSoc
