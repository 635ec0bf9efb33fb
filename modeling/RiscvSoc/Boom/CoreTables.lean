import RiscvSoc.Boom.CoreOrder
import RiscvSoc.Lib.UndoLog

/-!
# The rename tables against the window

Every micro-op with a destination overwrites one entry of the map table, and it carries what it
replaced as its stale register. So the micro-ops that count, the committed ones and then those in
the window, are an undo log of the map table. A rollback goes back over it; a mispredicted branch
jumps back to a copy of the table as it was after the branch.

A physical register is in the map table, or a micro-op in the window replaced it, or it is free.
What a bundle takes from the free list it brings into the map table, and what a micro-op replaced
becomes free when it commits.
-/

namespace RiscvSoc

open RenameStage RenameMapTable

variable {c : BOOMConf}

/-- What a micro-op does to the map table. -/
def RobUop.overwrite (u : RobUop c) : Overwrite LReg (PReg c) := ⟨u.ldst, u.pdst, u.stalePdst⟩

/-- What some micro-ops do to the map table. -/
def renameLog (us : List (RobUop c)) : List (Overwrite LReg (PReg c)) :=
  (us.filter fun u => u.needsPreg).map RobUop.overwrite

theorem renameLog_append (us vs : List (RobUop c)) :
    renameLog (us ++ vs) = renameLog us ++ renameLog vs := by
  rw [renameLog, List.filter_append, List.map_append]
  rfl

theorem renameLog_resolve (brinfo : Option (BrResolutionInfo c)) (us : List (RobUop c)) :
    renameLog (us.map (RobUop.resolve brinfo)) = renameLog us := by
  rw [renameLog, List.filter_map, List.map_map]
  rfl

theorem mem_map_new {us : List (RobUop c)} {p : PReg c} : p ∈ (renameLog us).map (·.new) ↔
    ∃ u ∈ us, u.needsPreg = true ∧ u.pdst = p := by
  simp only [renameLog, List.map_map, List.mem_map, List.mem_filter, Function.comp_apply]
  exact ⟨fun ⟨u, ⟨hu, hn⟩, hp⟩ => ⟨u, hu, hn, hp⟩, fun ⟨u, hu, hn, hp⟩ => ⟨u, ⟨hu, hn⟩, hp⟩⟩

theorem mem_map_old {us : List (RobUop c)} {p : PReg c} : p ∈ (renameLog us).map (·.old) ↔
    ∃ u ∈ us, u.needsPreg = true ∧ u.stalePdst = p := by
  simp only [renameLog, List.map_map, List.mem_map, List.mem_filter, Function.comp_apply]
  exact ⟨fun ⟨u, ⟨hu, hn⟩, hp⟩ => ⟨u, hu, hn, hp⟩, fun ⟨u, hu, hn, hp⟩ => ⟨u, ⟨hu, hn⟩, hp⟩⟩

theorem ldst_of_needsPreg {u : DecUop c} (h : u.needsPreg = true) :
    u.ldst ≠ 0 ∧ u.ldstRtype = .fix := by
  rw [DecUop.needsPreg, DecUop.ldstVal, Bool.and_eq_true, Bool.and_eq_true] at h
  exact ⟨of_decide_eq_true h.1.2, of_decide_eq_true h.2⟩

theorem needsPreg_eq_true {u : DecUop c} :
    u.needsPreg = true ↔ u.ldstRtype = .fix ∧ u.ldst ≠ 0 := by
  refine ⟨fun h => (ldst_of_needsPreg h).symm, fun h => ?_⟩
  simp [DecUop.needsPreg, DecUop.ldstVal, h.1, h.2]

/-- Register `0` is never overwritten. -/
theorem replay_renameLog_zero {m : LReg → PReg c} (us : List (RobUop c)) :
    replay m (renameLog us) 0 = m 0 := by
  refine replay_of_forall_ne fun e he => ?_
  obtain ⟨u, hu, rfl⟩ := List.mem_map.mp he
  exact (ldst_of_needsPreg (List.mem_filter.mp hu).2).1

namespace Core

variable {s : Core c} {i : CoreInput c}

/-! ### The bundle -/

/-- What slots `0` to `k - 1` dispatch. -/
def newUopsUpTo (s : Core c) (i : CoreInput c) (k : ℕ) : List (RobUop c) :=
  (((List.finRange c.decodeWidth).take k).filter (s.disMask i)).map (s.disUops i)

theorem newUopsUpTo_all : s.newUopsUpTo i c.decodeWidth = s.newUops i := by
  rw [newUopsUpTo, List.take_of_length_le (by simp)]
  rfl

theorem newUopsUpTo_succ (w : Bank c) : s.newUopsUpTo i (w + 1) = s.newUopsUpTo i w ++
    if s.disMask i w then [s.disUops i w] else [] := by
  rw [newUopsUpTo, List.take_add_one, List.getElem?_eq_getElem (by simp), List.filter_append,
    List.map_append]
  congr 1
  simp only [List.getElem_finRange, Fin.cast_mk, Fin.eta, Option.toList_some]
  cases h : s.disMask i w with
  | true => simp [h]
  | false => simp [h]

/-- The slots before slot `k`. -/
theorem take_finRange (n k : ℕ) :
    (List.finRange n).take k = (List.finRange n).filter fun w : Fin n => decide (w.val < k) := by
  conv_rhs => rw [← List.take_append_drop k (List.finRange n), List.filter_append]
  have hnone : ((List.finRange n).drop k).filter (fun w : Fin n => decide (w.val < k)) = [] := by
    refine List.filter_eq_nil_iff.mpr fun w hw => ?_
    obtain ⟨j, hj, rfl⟩ := List.mem_drop_iff_getElem.mp hw
    simp
  have hall : ((List.finRange n).take k).filter (fun w : Fin n => decide (w.val < k)) =
      (List.finRange n).take k := by
    refine List.filter_eq_self.mpr fun w hw => ?_
    obtain ⟨j, hj, rfl⟩ := List.mem_take_iff_getElem.mp hw
    simp only [List.length_finRange, lt_min_iff] at hj
    simp [hj.1]
  rw [hnone, hall, List.append_nil]

/-- What is dispatched up to slot `w` is what is not younger than it. -/
theorem newUops_filter_seq {w : Bank c} (hw : s.disMask i w = true) :
    (s.newUops i).filter (fun u => decide (u.seq ≤ (s.disUops i w).seq)) =
      s.newUopsUpTo i (w + 1) := by
  rw [newUopsUpTo, take_finRange, newUops_eq, List.filter_map, disSlots, List.filter_filter,
    List.filter_filter]
  congr 1
  refine List.filter_congr fun v _ => ?_
  cases hv : s.disMask i v with
  | false => simp
  | true =>
    have hle : (s.disUops i v).seq ≤ (s.disUops i w).seq ↔ (v : ℕ) < w + 1 := by
      rw [← not_lt, seq_disUops_lt hw hv, not_lt, Fin.le_def, Nat.lt_succ_iff]
    simp [hle]

theorem writes_renInput (w : Bank c) : s.ren.writes (s.renInput i) w =
    (s.disMask i w && (s.disUops i w).needsPreg) := by
  rw [writes_eq]
  have hneeds : (s.disUops i w).needsPreg = (i.decInsts w).needsPreg := rfl
  have hval : ((s.renInput i).decUops w).ldstVal = (i.decInsts w).ldstVal := rfl
  rw [hneeds, hval]
  cases h : (i.decInsts w).ldstVal with
  | true =>
    rw [needsPreg_of_ldstVal h]
    rfl
  | false =>
    rw [DecUop.needsPreg, h]
    rfl

/-- **The map table in front of slot `k`** is what the slots before it make of it. -/
theorem tableAfter_eq {k : ℕ} (hk : k ≤ c.decodeWidth) :
    s.tableAfter i k = replay s.ren.mapTable.element (renameLog (s.newUopsUpTo i k)) := by
  induction k with
  | zero => rfl
  | succ k ih =>
    have hlt : k < c.decodeWidth := hk
    have hstep := (update_tablesBefore (s := s.ren) (i := s.renInput i) k hlt).1
    have hprev : (s.ren.tablesBefore (s.renInput i) k).element = _ := ih hlt.le
    rw [tableAfter, hstep, hprev, newUopsUpTo_succ ⟨k, hlt⟩, renameLog_append, replay_append,
      writes_renInput]
    cases hdis : s.disMask i ⟨k, hlt⟩ with
    | false => rfl
    | true =>
      cases hneeds : (s.disUops i ⟨k, hlt⟩).needsPreg with
      | false => simp [renameLog, hneeds, replay_nil]
      | true =>
        simp only [Bool.and_self, if_true, renameLog, List.filter_cons, hneeds, List.filter_nil,
          List.map_cons, List.map_nil, replay_cons, replay_nil]
        rfl

/-- The stale register of a slot is what its destination is mapped to in its turn. -/
theorem stalePdst_disUops {w : Bank c} (h : (s.disUops i w).needsPreg = true) :
    (s.disUops i w).stalePdst = s.tableAfter i w (s.disUops i w).ldst := by
  have hval : ((s.renInput i).decUops w).ldstVal = true := by
    have hval : (s.disUops i w).ldstVal = true := (Bool.and_eq_true_iff.mp h).1
    exact hval
  have hone : s.ren.OneWriter (s.renInput i) w ((s.renInput i).decUops w).ldst := by
    intro x y hx hy _ _
    have hwidth := w.isLt
    ext
    have hx := Fin.lt_def.mp hx
    have hy := Fin.lt_def.mp hy
    rcases c.decodeWidth_eq with h | h <;> omega
  have hstale := (stalePdst_eq_iff (s := s.ren) (i := s.renInput i) w).mpr fun _ => hone
  rw [if_pos hval, if_pos hval] at hstale
  exact Option.some.inj hstale

/-- **A bundle is an undo log** of the map table. -/
theorem consistent_newUopsUpTo {k : ℕ} (hk : k ≤ c.decodeWidth) :
    Consistent s.ren.mapTable.element (renameLog (s.newUopsUpTo i k)) := by
  induction k with
  | zero => trivial
  | succ k ih =>
    have hlt : k < c.decodeWidth := hk
    rw [newUopsUpTo_succ ⟨k, hlt⟩, renameLog_append, consistent_append]
    refine ⟨ih hlt.le, ?_⟩
    cases hdis : s.disMask i ⟨k, hlt⟩ with
    | false => trivial
    | true =>
      cases hneeds : (s.disUops i ⟨k, hlt⟩).needsPreg with
      | false => simp [renameLog, hneeds, Consistent]
      | true =>
        have hstale := stalePdst_disUops hneeds
        rw [tableAfter_eq hlt.le] at hstale
        simp only [if_true, renameLog, List.filter_cons, hneeds, List.filter_nil, List.map_cons,
          List.map_nil, Consistent, and_true]
        exact hstale

theorem consistent_newUops :
    Consistent s.ren.mapTable.element (renameLog (s.newUops i)) := by
  rw [← newUopsUpTo_all]
  exact consistent_newUopsUpTo le_rfl

theorem free_of_newUops {u : RobUop c} (hu : u ∈ s.newUops i) (hneeds : u.needsPreg = true) :
    u.pdst ≠ 0 ∧ s.ren.freeList.freeList u.pdst = true := by
  obtain ⟨w, hw, rfl⟩ := mem_newUops.mp hu
  have hwrites : s.ren.writes (s.renInput i) w = true := by
    rw [writes_renInput, hw, hneeds]
    rfl
  exact s.ren.freeList.of_requestedPregs (pdst_of_writes hwrites)

theorem nodup_newUops : ((renameLog (s.newUops i)).map (·.new)).Nodup := by
  have hslots : (renameLog (s.newUops i)).map (·.new) =
      ((s.disSlots i).filter fun w => (s.disUops i w).needsPreg).map
        fun w => s.ren.pdst (s.renInput i) w := by
    rw [renameLog, newUops_eq, List.filter_map, List.map_map, List.map_map]
    rfl
  rw [hslots]
  refine List.Nodup.map_on (fun v hv w hw heq => ?_)
    ((pairwise_disSlots.imp fun h => h.ne).filter _)
  have hwrites : ∀ x ∈ (s.disSlots i).filter fun w => (s.disUops i w).needsPreg,
      s.ren.writes (s.renInput i) x = true := by
    intro x hx
    obtain ⟨hx, hneeds⟩ := List.mem_filter.mp hx
    rw [writes_renInput, mem_disSlots.mp hx, hneeds]
    rfl
  exact pdst_inj (hwrites v hv) (hwrites w hw) heq

/-! ### The invariant -/

/-- The micro-ops that count, in program order: the committed ones and those in the window. -/
def timeline (s : Core c) : List (RobUop c) := s.committed ++ s.rob.window

/-- The invariant about the rename tables. -/
structure TablesOk (s : Core c) : Prop where
  element : s.ren.mapTable.element = replay (fun _ => 0) (renameLog s.timeline)
  consistent : Consistent (fun _ => 0) (renameLog s.timeline)
  pdst_ne : ∀ u ∈ s.rob.window, u.needsPreg = true → u.pdst ≠ 0
  idle : ∀ u ∈ s.rob.window, u.ldstRtype = .fix → u.needsPreg = false →
    u.pdst = 0 ∧ u.stalePdst = 0
  renamed : ∀ u ∈ s.rob.window, s.renamed u.seq = replay (fun _ => 0)
    (renameLog (s.committed ++ s.rob.window.filter fun v => decide (v.seq ≤ u.seq)))
  copies : ∀ b ∈ s.pending, s.ren.mapTable.elementBrCopies b.brTag = s.renamed b.seq
  balance : ∀ p, p ≠ 0 → (if s.ren.freeList.freeList p then 1 else 0) +
    (Finset.univ.filter fun r => s.ren.mapTable.element r = p).card +
    ((renameLog s.rob.window).map (·.old)).count p = 1
  allocated : ∀ b ∈ s.pending, ∀ p, s.ren.freeList.allocationLists b.brTag p = true ↔
    ∃ u ∈ s.rob.window, u.needsPreg = true ∧ u.pdst = p ∧ b.seq < u.seq

/-- The micro-op is killed or rolled back in this cycle. -/
def dies (s : Core c) (i : CoreInput c) (u : RobUop c) : Bool :=
  s.rob.brKills (s.robInput i) (robSlot u.robIdx) || s.rob.rollsBack (robSlot u.robIdx)

/-- What is not killed or rolled back in this cycle. -/
def survivors (s : Core c) (i : CoreInput c) : List (RobUop c) :=
  s.rob.window.filter fun u => !s.dies i u

namespace Ordered

section

variable (ho : s.Ordered)
include ho

theorem dies_iff {u : RobUop c} (hu : u ∈ s.rob.window) : s.dies i u = true ↔
    (∃ r, s.mispredicted r ∧ r.seq < u.seq) ∨ s.rob.rollsBack (robSlot u.robIdx) = true := by
  rw [dies, Bool.or_eq_true, ← ho.killed_iff hu]
  obtain ⟨x, hx, rfl⟩ := Rob.mem_window.mp hu
  rw [ho.shaped.addressed x hx, Rob.brKills, hx, Bool.true_and]
  rfl

theorem dies_of_seq_lt {u v : RobUop c} (hu : u ∈ s.rob.window) (hv : v ∈ s.rob.window)
    (hlt : u.seq < v.seq) (hdies : s.dies i u = true) :
    s.dies i v = true := by
  rw [ho.dies_iff hu] at hdies
  rw [ho.dies_iff hv]
  rcases hdies with ⟨r, hr, hru⟩ | hroll
  · exact .inl ⟨r, hr, hru.trans hlt⟩
  · obtain ⟨x, hx, rfl⟩ := Rob.mem_window.mp hu
    obtain ⟨y, hy, rfl⟩ := Rob.mem_window.mp hv
    rw [ho.shaped.addressed x hx, Rob.rollsBack_eq_true] at hroll
    rw [ho.shaped.addressed y hy, Rob.rollsBack_eq_true]
    have hle := rowPlace_le_of_place_lt ((ho.seq_lt_iff hx hy).mp hlt)
    rw [hroll.2] at hle
    exact .inr ⟨hroll.1, rowPlace_inj (Nat.le_antisymm (ho.shaped.le_tail y hy) hle)⟩

theorem not_dies_of_commits {u : RobUop c} (hu : u ∈ s.rob.window)
    (hcom : s.commits u = true) : s.dies i u = false := by
  rw [← Bool.not_eq_true, ho.dies_iff hu]
  rintro (⟨r, hr, hlt⟩ | hroll)
  · have hpend := mem_pending_of_brReg hr
    have hno := ho.not_commits hpend
    have hyes := ho.commits_of_seq_le hu (ho.mem_window hpend) hlt.le hcom
    rw [commits, hno] at hyes
    cases hyes
  · exact Rob.not_rollback_of_commits hcom (Rob.rollsBack_eq_true.mp hroll).1

theorem window_eq :
    s.survivors i ++ s.rob.window.filter (s.dies i) = s.rob.window := by
  have hsplit := filter_append_filter_neg (p := fun u => !s.dies i u) (l := s.rob.window)
    (ho.sorted.imp_of_mem fun hu hv hlt hno => by
      rw [Bool.not_eq_true'] at hno ⊢
      rw [← Bool.not_eq_true]
      intro hdies
      rw [ho.dies_of_seq_lt hu hv hlt hdies] at hno
      cases hno)
  simpa only [Bool.not_not, survivors] using hsplit

/-- The survivors: those that commit, and then those that stay. -/
theorem survivors_eq : s.rob.window.filter s.commits ++
    (s.rob.window.filter fun u => !s.rob.removes (s.robInput i) (robSlot u.robIdx)) =
      s.survivors i := by
  have hsplit := filter_append_filter_neg (p := s.commits) (l := s.survivors i) <| by
    refine (ho.sorted.filter _).imp_of_mem fun hu hv hlt hcom => ?_
    exact ho.commits_of_seq_le (List.mem_filter.mp hv).1 (List.mem_filter.mp hu).1 hlt.le hcom
  rw [← hsplit, survivors, List.filter_filter, List.filter_filter]
  congr 1
  · refine List.filter_congr fun u hu => ?_
    cases hcom : s.commits u with
    | false => rfl
    | true =>
      rw [ho.not_dies_of_commits hu hcom]
      rfl
  · refine List.filter_congr fun u _ => ?_
    have hcom : s.commits u = s.rob.commits (robSlot u.robIdx) := rfl
    rw [Rob.removes, dies, hcom, Bool.or_assoc, Bool.not_or]

theorem survivors_of_newUops (hnew : s.newUops i ≠ []) :
    s.survivors i = s.rob.window := by
  refine List.filter_eq_self.mpr fun u hu => ?_
  rw [Bool.not_eq_true', ← Bool.not_eq_true, ho.dies_iff hu]
  rintro (⟨r, hr, _⟩ | hroll)
  · exact hnew (newUops_of_kill (.inl (mispredicts_eq_true.mpr ⟨r, hr⟩)))
  · refine hnew (newUops_of_kill (.inr (.inr ?_)))
    rw [(Rob.rollsBack_eq_true.mp hroll).1]
    decide

/-- **A cycle of the timeline**: the end of it is cut off, and what is dispatched is appended. -/
theorem renameLog_timeline_next : renameLog (s.next i).timeline =
    renameLog (s.committed ++ s.survivors i) ++ renameLog (s.newUops i) := by
  have hcommitted : (s.next i).committed = s.committed ++ s.rob.window.filter s.commits := rfl
  rw [timeline, ho.window_next, hcommitted, ← ho.survivors_eq (i := i)]
  simp only [renameLog_append, renameLog_resolve, List.append_assoc]

theorem renameLog_timeline : renameLog s.timeline =
    renameLog (s.committed ++ s.survivors i) ++ renameLog (s.rob.window.filter (s.dies i)) := by
  rw [timeline, ← renameLog_append, List.append_assoc, ho.window_eq]

end

end Ordered

/-- The map table as the survivors have left it. -/
def keptMap (s : Core c) (i : CoreInput c) : LReg → PReg c :=
  replay (fun _ => 0) (renameLog (s.committed ++ s.survivors i))

namespace TablesOk

variable (hs : s.TablesOk)
include hs

theorem element_zero : s.ren.mapTable.element 0 = 0 := by
  rw [hs.element, replay_renameLog_zero]

theorem keptMap_of_newUops (ho : s.Ordered) (hnew : s.newUops i ≠ []) :
    s.keptMap i = s.ren.mapTable.element := by
  rw [keptMap, ho.survivors_of_newUops hnew, hs.element]
  rfl

/-- The end of the window leads from the kept map to the map table. -/
theorem replay_dies (ho : s.Ordered) :
    replay (s.keptMap i) (renameLog (s.rob.window.filter (s.dies i))) = s.ren.mapTable.element := by
  rw [hs.element, ho.renameLog_timeline (i := i), replay_append]
  rfl

theorem consistent_dies (ho : s.Ordered) :
    Consistent (s.keptMap i) (renameLog (s.rob.window.filter (s.dies i))) := by
  have hcons := hs.consistent
  rw [ho.renameLog_timeline (i := i), consistent_append] at hcons
  exact hcons.2

theorem consistent_kept (ho : s.Ordered) :
    Consistent (s.keptMap i) (renameLog (s.newUops i)) := by
  by_cases hnew : s.newUops i = []
  · rw [hnew]
    trivial
  · rw [hs.keptMap_of_newUops ho hnew]
    exact consistent_newUops

theorem consistent_next (ho : s.Ordered) :
    Consistent (fun _ => 0) (renameLog (s.next i).timeline) := by
  have hcons := hs.consistent
  rw [ho.renameLog_timeline (i := i), consistent_append] at hcons
  rw [ho.renameLog_timeline_next, consistent_append]
  exact ⟨hcons.1, hs.consistent_kept ho⟩

/-! ### The map table -/

variable {r : RobUop c} {w : Bank c}

omit hs in
theorem mispredictTag_renInput (hr : s.mispredicted r) :
    (s.renInput i).mispredictTag = some r.brTag := by
  show (s.brinfo.filter fun b => b.mispredict).map (·.tag) = _
  rw [brinfo, hr]
  rfl

omit hs in
theorem mispredictTag_renInput_none (hno : ∀ r, ¬s.mispredicted r) :
    (s.renInput i).mispredictTag = none := by
  show (s.brinfo.filter fun b => b.mispredict).map (·.tag) = _
  have hnone : s.brinfo.filter (fun b => b.mispredict) = none := by
    cases hb : s.brinfo.filter fun b => b.mispredict with
    | none => rfl
    | some b =>
      obtain ⟨r, hr, _⟩ := mispredict_robInput (i := i).mp hb
      exact absurd hr (hno r)
  rw [hnone]
  rfl

omit hs in
/-- A mispredicted branch keeps what is not younger than itself. -/
theorem survivors_of_mispredicted (ho : s.Ordered) (hr : s.mispredicted r) :
    s.survivors i = s.rob.window.filter fun u => decide (u.seq ≤ r.seq) := by
  have hpend := mem_pending_of_brReg hr
  refine List.filter_congr fun u hu => ?_
  have hroll : s.rob.rollsBack (robSlot u.robIdx) = false := by
    obtain ⟨x, hx, rfl⟩ := Rob.mem_window.mp hu
    rw [ho.shaped.addressed x hx]
    exact ho.not_rollsBack hpend hx
  have hiff : s.dies i u = true ↔ r.seq < u.seq := by
    rw [ho.dies_iff hu, hroll]
    refine ⟨?_, fun hlt => .inl ⟨r, hr, hlt⟩⟩
    rintro (⟨r', hr', hlt⟩ | h)
    · rw [mispredicted, hr] at hr'
      cases hr'
      exact hlt
    · cases h
  cases hdies : s.dies i u with
  | true => simp [hiff.mp hdies]
  | false =>
    have hle : u.seq ≤ r.seq := not_lt.mp fun hlt => by
      rw [hiff.mpr hlt] at hdies
      cases hdies
    simp [hle]

omit hs in
/-- Without a misprediction a rollback cuts off the row at the tail. -/
theorem dies_of_rollback (ho : s.Ordered) (hno : ∀ r, ¬s.mispredicted r)
    (hroll : s.rob.state = .rollback) : s.rob.window.filter (s.dies i) =
      ((List.finRange c.decodeWidth).filter fun w => (s.rob.entry (s.rob.tail, w)).val).map
        fun w => (s.rob.entry (s.rob.tail, w)).uop := by
  rw [← Rob.window_filter_row ho.shaped]
  refine List.filter_congr fun u hu => ?_
  rw [Bool.eq_iff_iff, ho.dies_iff hu, Rob.rollsBack_eq_true, decide_eq_true_eq]
  constructor
  · rintro (⟨r, hr, _⟩ | h)
    · exact absurd hr (hno r)
    · exact h.2
  · exact fun h => .inr ⟨hroll, h⟩

/-- The rollback port restores what the row at the tail replaced. -/
theorem rollback_eq (ho : s.Ordered) (hno : ∀ r, ¬s.mispredicted r)
    (hroll : s.rob.state = .rollback) (k : LReg) :
    (rollback (RenameStage.rbk (s.renInput i)) k).getD (s.ren.mapTable.element k) =
      s.keptMap i k := by
  have hcom : s.rob.comIdx = s.rob.tail := if_pos hroll
  have hvalid : ∀ w, s.rob.comRbkValids w = true ↔ (s.rob.entry (s.rob.tail, w)).val = true ∧
      (s.rob.entry (s.rob.tail, w)).uop.ldstRtype = .fix := by
    intro w
    rw [Rob.comRbkValids, Rob.comUops, hcom, hroll]
    simp
  have hrbk : ∀ w, RenameStage.rbk (s.renInput i) w = if s.rob.comRbkValids w then
      some ((s.rob.entry (s.rob.tail, w)).uop.ldst,
        (s.rob.entry (s.rob.tail, w)).uop.stalePdst) else none := by
    intro w
    show (if s.rob.comRbkValids w then some ((s.rob.comUops w).ldst, (s.rob.comUops w).stalePdst)
      else none) = _
    rw [Rob.comUops, hcom]
  have hfst : ∀ w, (RenameStage.rbk (s.renInput i) w).map (·.1) = some k ↔
      s.rob.comRbkValids w = true ∧ (s.rob.entry (s.rob.tail, w)).uop.ldst = k := by
    intro w
    rw [hrbk]
    cases s.rob.comRbkValids w <;> simp
  by_cases hk : k = 0
  · -- register `0` holds `P0`, and nothing restores another
    subst hk
    rw [keptMap, replay_renameLog_zero]
    rw [rollback]
    cases henc : priorityEncoder fun w =>
        decide ((RenameStage.rbk (s.renInput i) w).map (·.1) = some 0) with
    | none => exact hs.element_zero
    | some w =>
      have hw := (hfst w).mp (of_decide_eq_true (priorityEncoder_some henc))
      obtain ⟨hval, hfix⟩ := (hvalid w).mp hw.1
      have hneeds : (s.rob.entry (s.rob.tail, w)).uop.needsPreg = false := by
        rw [← Bool.not_eq_true, needsPreg_eq_true]
        exact fun h => h.2 hw.2
      have hstale := (hs.idle _ (Rob.mem_window.mpr ⟨_, hval, rfl⟩) hfix hneeds).2
      rw [Option.bind_some, hrbk, if_pos hw.1]
      exact hstale
  · rw [← undo_eq (hs.consistent_dies ho (i := i)) k, hs.replay_dies ho]
    congr 1
    have hlog : (renameLog (s.rob.window.filter (s.dies i))).find? (fun e => decide (e.key = k)) =
        (priorityEncoder fun w =>
          decide ((RenameStage.rbk (s.renInput i) w).map (·.1) = some k)).map
            fun w => (s.rob.entry (s.rob.tail, w)).uop.overwrite := by
      rw [dies_of_rollback ho hno hroll, renameLog, List.filter_map, List.filter_filter,
        List.map_map, List.find?_map, List.find?_filter, priorityEncoder]
      refine congrArg (Option.map _) (congrArg (List.find? · _) ?_)
      funext w
      rw [Bool.eq_iff_iff, decide_eq_true_eq, decide_eq_true_eq, hfst, hvalid]
      simp only [Function.comp_apply, Bool.and_eq_true, RobUop.overwrite, needsPreg_eq_true]
      constructor
      · rintro ⟨⟨⟨hfix, _⟩, hval⟩, hkey⟩
        exact ⟨⟨hval, hfix⟩, of_decide_eq_true hkey⟩
      · rintro ⟨⟨hval, hfix⟩, hkey⟩
        exact ⟨⟨⟨hfix, hkey ▸ hk⟩, hval⟩, decide_eq_true hkey⟩
    rw [hlog, rollback]
    cases henc : priorityEncoder fun w =>
        decide ((RenameStage.rbk (s.renInput i) w).map (·.1) = some k) with
    | none => rfl
    | some w =>
      have hw := (hfst w).mp (of_decide_eq_true (priorityEncoder_some henc))
      rw [Option.bind_some, hrbk, if_pos hw.1]
      rfl

omit hs in
/-- What the last writer of a bundle leaves in the map table. -/
theorem lastWrite_eq (k : LReg) : (lastWrite (s.ren.wens (s.renInput i))
    (s.ren.pdst (s.renInput i)) (fun _ => true) k).getD (s.ren.mapTable.element k) =
      replay s.ren.mapTable.element (renameLog (s.newUops i)) k := by
  rw [← newUopsUpTo_all, ← tableAfter_eq le_rfl, tableAfter,
    element_tablesBefore _ le_rfl]
  have hall : (fun x : Bank c => decide ((x : ℕ) < c.decodeWidth)) = fun _ => true := by
    funext x
    exact decide_eq_true x.isLt
  rw [hall]

theorem element_next (ho : s.Ordered) : (s.next i).ren.mapTable.element =
    replay (fun _ => 0) (renameLog (s.next i).timeline) := by
  rw [ho.renameLog_timeline_next, replay_append]
  show (s.ren.next (s.renInput i)).mapTable.element = replay (s.keptMap i) (renameLog (s.newUops i))
  funext k
  by_cases hmis : ∃ r, s.mispredicted r
  · obtain ⟨r, hr⟩ := hmis
    have hpend := mem_pending_of_brReg hr
    have hcopy : (s.ren.next (s.renInput i)).mapTable.element k =
        s.ren.mapTable.elementBrCopies r.brTag k := by
      simp only [RenameStage.next, RenameMapTable.next, mispredictTag_renInput hr]
    rw [hcopy, hs.copies r hpend, hs.renamed r (ho.mem_window hpend),
      newUops_of_kill (.inl (mispredicts_eq_true.mpr ⟨r, hr⟩)), keptMap,
      survivors_of_mispredicted ho hr]
    rfl
  · rw [not_exists] at hmis
    have hnext : (s.ren.next (s.renInput i)).mapTable.element k =
        (rollback (RenameStage.rbk (s.renInput i)) k).getD
          ((lastWrite (s.ren.wens (s.renInput i)) (s.ren.pdst (s.renInput i))
            (fun _ => true) k).getD (s.ren.mapTable.element k)) := by
      simp only [RenameStage.next, RenameMapTable.next, mispredictTag_renInput_none hmis]
    rw [hnext, lastWrite_eq]
    by_cases hroll : s.rob.state = .rollback
    · rw [newUops_of_kill (.inr (.inr (by rw [hroll]; decide)))]
      exact hs.rollback_eq ho hmis hroll k
    · have hnorbk : rollback (RenameStage.rbk (s.renInput i)) k = none := by
        have hnone : ∀ w, RenameStage.rbk (s.renInput i) w = none := by
          intro w
          have hinvalid : s.rob.comRbkValids w = false := by
            rw [Rob.comRbkValids, decide_eq_false hroll, Bool.false_and, Bool.false_and]
          show (if s.rob.comRbkValids w then _ else none) = _
          rw [hinvalid]
          rfl
        have henc : priorityEncoder (fun w => decide ((RenameStage.rbk (s.renInput i) w).map (·.1) =
            some k)) = none := priorityEncoder_eq_none.mpr fun w => by simp [hnone w]
        rw [rollback, henc]
        rfl
      have hkept : s.keptMap i = s.ren.mapTable.element := by
        have hall : s.survivors i = s.rob.window := by
          refine List.filter_eq_self.mpr fun u hu => ?_
          rw [Bool.not_eq_true', ← Bool.not_eq_true, ho.dies_iff hu]
          rintro (⟨r, hr, _⟩ | h)
          · exact hmis r hr
          · exact hroll (Rob.rollsBack_eq_true.mp h).1
        rw [keptMap, hall, hs.element]
        rfl
      rw [hnorbk, hkept]
      rfl

/-! ### The other fields -/

theorem pdst_ne_next (ho : s.Ordered) :
    ∀ u ∈ (s.next i).rob.window, u.needsPreg = true → u.pdst ≠ 0 := by
  intro u' hu' hneeds
  rcases ho.mem_window_next.mp hu' with ⟨u, hu, _, rfl⟩ | hnew
  · exact hs.pdst_ne u hu hneeds
  · exact (free_of_newUops hnew hneeds).1

theorem idle_next (ho : s.Ordered) : ∀ u ∈ (s.next i).rob.window, u.ldstRtype = .fix →
    u.needsPreg = false → u.pdst = 0 ∧ u.stalePdst = 0 := by
  intro u' hu' hfix hneeds
  rcases ho.mem_window_next.mp hu' with ⟨u, hu, _, rfl⟩ | hnew
  · exact hs.idle u hu hfix hneeds
  · obtain ⟨w, hw, rfl⟩ := mem_newUops.mp hnew
    have hzero : (i.decInsts w).ldst = 0 := by
      by_contra hne
      have hyes : (s.disUops i w).needsPreg = true := needsPreg_eq_true.mpr ⟨hfix, hne⟩
      rw [hneeds] at hyes
      cases hyes
    have hneeds' : ((s.renInput i).decUops w).needsPreg = false := hneeds
    have hldst : ((s.renInput i).decUops w).ldst = 0 := hzero
    have hval : ((s.renInput i).decUops w).ldstVal = false := by
      rw [DecUop.ldstVal, hldst]
      simp
    constructor
    · show s.ren.pdst (s.renInput i) w = 0
      rw [RenameStage.pdst, hneeds', hldst]
      rfl
    · show s.ren.stalePdst (s.renInput i) w = 0
      rw [stalePdst, hval, hldst]
      exact hs.element_zero

omit hs in
theorem renamed_next_of_lt {q : ℕ} (hq : q < s.count) : (s.next i).renamed q = s.renamed q := by
  show s.nextRenamed i q = s.renamed q
  rw [nextRenamed, find?_disSlots_of_lt hq]

omit hs in
theorem renamed_next_of_new (hw : s.disMask i w = true) :
    (s.next i).renamed (s.disUops i w).seq = s.tableAfter i (w + 1) := by
  show s.nextRenamed i _ = _
  rw [nextRenamed, find?_disSlots hw]

omit hs in
theorem renameLog_upTo_old (ho : s.Ordered) {u : RobUop c} (hu : u ∈ s.rob.window)
    (hkeep : s.rob.removes (s.robInput i) (robSlot u.robIdx) = false) :
    renameLog ((s.next i).committed ++
      (s.next i).rob.window.filter fun v => decide (v.seq ≤ u.seq)) =
    renameLog (s.committed ++ s.rob.window.filter fun v => decide (v.seq ≤ u.seq)) := by
  have hnew : (s.newUops i).filter (fun v => decide (v.seq ≤ u.seq)) = [] := by
    refine List.filter_eq_nil_iff.mpr fun v hv hle => ?_
    have hlt := (ho.lt_count u hu).trans_le (seq_newUops hv).1
    exact hlt.not_ge (of_decide_eq_true hle)
  have hcom : (s.rob.window.filter s.commits).filter (fun v => decide (v.seq ≤ u.seq)) =
      s.rob.window.filter s.commits := by
    refine List.filter_eq_self.mpr fun v hv => ?_
    obtain ⟨hv, hvcom⟩ := List.mem_filter.mp hv
    by_contra hlt
    rw [decide_eq_true_eq, not_le] at hlt
    have hucom := ho.commits_of_seq_le hv hu hlt.le hvcom
    rw [((ho.removes_eq_false hu).mp hkeep).1] at hucom
    cases hucom
  have hsurvive : (s.survivors i).filter (fun v => decide (v.seq ≤ u.seq)) =
      s.rob.window.filter fun v => decide (v.seq ≤ u.seq) := by
    rw [survivors, List.filter_filter]
    refine List.filter_congr fun v hv => ?_
    cases hle : decide (v.seq ≤ u.seq) with
    | false => rfl
    | true =>
      have hulive : s.dies i u = false := by
        rw [Rob.removes, Bool.or_assoc, Bool.or_eq_false_iff] at hkeep
        exact hkeep.2
      rw [Bool.true_and, Bool.not_eq_true', ← Bool.not_eq_true]
      intro hdies
      rcases eq_or_lt_of_le (of_decide_eq_true hle) with heq | hlt
      · rw [ho.eq_of_seq hv hu heq, hulive] at hdies
        cases hdies
      · rw [ho.dies_of_seq_lt hv hu hlt hdies] at hulive
        cases hulive
  have hcommitted : (s.next i).committed = s.committed ++ s.rob.window.filter s.commits := rfl
  have hmap : ∀ l : List (RobUop c), (l.map (RobUop.resolve s.brinfo)).filter
      (fun v => decide (v.seq ≤ u.seq)) =
      (l.filter fun v => decide (v.seq ≤ u.seq)).map (RobUop.resolve s.brinfo) := fun l =>
    List.filter_map
  rw [hcommitted, ho.window_next, List.filter_append, hnew, List.append_nil, hmap, renameLog_append,
    renameLog_append, renameLog_resolve, ← hsurvive, ← ho.survivors_eq (i := i), List.filter_append,
    hcom, renameLog_append, renameLog_append, List.append_assoc]

omit hs in
/-- The part of the timeline up to a slot of the new bundle. -/
theorem renameLog_upTo_new (ho : s.Ordered) (hw : s.disMask i w = true) :
    renameLog ((s.next i).committed ++
      (s.next i).rob.window.filter fun v => decide (v.seq ≤ (s.disUops i w).seq)) =
    renameLog (s.committed ++ s.survivors i) ++ renameLog (s.newUopsUpTo i (w + 1)) := by
  have hle := (seq_newUops (mem_newUops.mpr ⟨w, hw, rfl⟩)).1
  have hold : ((s.rob.window.filter fun u => !s.rob.removes (s.robInput i) (robSlot u.robIdx)).map
      (RobUop.resolve s.brinfo)).filter (fun v => decide (v.seq ≤ (s.disUops i w).seq)) =
      (s.rob.window.filter fun u => !s.rob.removes (s.robInput i) (robSlot u.robIdx)).map
        (RobUop.resolve s.brinfo) := by
    refine List.filter_eq_self.mpr fun v hv => ?_
    obtain ⟨u, hu, rfl⟩ := List.mem_map.mp hv
    exact decide_eq_true (((ho.lt_count u (List.mem_filter.mp hu).1).trans_le hle).le)
  have hcommitted : (s.next i).committed = s.committed ++ s.rob.window.filter s.commits := rfl
  rw [hcommitted, ho.window_next, List.filter_append, hold, newUops_filter_seq hw,
    ← ho.survivors_eq (i := i)]
  simp only [renameLog_append, renameLog_resolve, List.append_assoc]

theorem renamed_next (ho : s.Ordered) : ∀ u ∈ (s.next i).rob.window,
    (s.next i).renamed u.seq = replay (fun _ => 0) (renameLog ((s.next i).committed ++
      (s.next i).rob.window.filter fun v => decide (v.seq ≤ u.seq))) := by
  intro u' hu'
  rcases ho.mem_window_next.mp hu' with ⟨u, hu, hkeep, rfl⟩ | hnew
  · show (s.next i).renamed u.seq = replay (fun _ => 0) (renameLog ((s.next i).committed ++
      (s.next i).rob.window.filter fun v => decide (v.seq ≤ u.seq)))
    rw [renamed_next_of_lt (ho.lt_count u hu), renameLog_upTo_old ho hu hkeep]
    exact hs.renamed u hu
  · obtain ⟨w, hw, rfl⟩ := mem_newUops.mp hnew
    have hne : s.newUops i ≠ [] := List.ne_nil_of_mem hnew
    rw [renamed_next_of_new hw, renameLog_upTo_new ho hw, replay_append]
    show _ = replay (s.keptMap i) _
    rw [hs.keptMap_of_newUops ho hne]
    exact tableAfter_eq w.isLt

/-! ### The copies of the map table -/

omit hs in
theorem renBrTags_eq_some {t : Fin c.maxBrCount} :
    renBrTags (s.renInput i) w = some t ↔
      s.takesTag i w = true ∧ (s.disUops i w).brTag = t := by
  have hdis : s.decMask i w = true → s.disMask i w = true := by
    intro hdec
    have hgo : s.goesAhead i (s.turn i w) w = true := hdec
    rw [disMask_eq_willFire, willFire, hgo]
    rw [goesAhead, Bool.and_eq_true, Bool.not_eq_true', stallMe] at hgo
    simp only [Bool.or_eq_false_iff, Bool.not_eq_false'] at hgo
    obtain ⟨_, ⟨⟨⟨⟨⟨⟨⟨⟨hproceed, _⟩, _⟩, _⟩, _⟩, _⟩, hmis⟩, hflush⟩, _⟩, _⟩ := hgo
    rw [hproceed, kill, hmis, hflush]
    rfl
  have hmask : s.disMask i w = true → s.decMask i w = true := fun h => by
    rw [disMask, renMask, Bool.and_eq_true, Bool.and_eq_true] at h
    exact h.1.1
  rw [renBrTags, takesTag_eq_true]
  show (if s.decMask i w && (s.disUops i w).allocatesBrTag then some (s.disUops i w).brTag
    else none) = some t ↔ _
  cases hdec : s.decMask i w with
  | false =>
    have hno : s.disMask i w = false := by
      rw [← Bool.not_eq_true]
      intro h
      rw [hmask h] at hdec
      cases hdec
    simp [hno]
  | true =>
    rw [hdis hdec]
    cases (s.disUops i w).allocatesBrTag <;> simp

omit hs in
/-- The tag of a branch that is not new is not taken by the bundle. -/
theorem renBrTags_ne (ho : s.Ordered) {b : RobUop c} (hb : b ∈ s.pending) (w : Bank c) :
    renBrTags (s.renInput i) w ≠ some b.brTag := by
  intro h
  obtain ⟨hw, htag⟩ := renBrTags_eq_some.mp h
  have hfree := branchMask_brTag hw
  rw [(ho.branchMask _).mpr ⟨b, hb, htag.symm⟩] at hfree
  cases hfree

omit hs in
theorem renBrTags_eq_iff {v w : Bank c} (hw : s.takesTag i w = true) :
    renBrTags (s.renInput i) v = some (s.disUops i w).brTag ↔ v = w := by
  rw [renBrTags_eq_some]
  constructor
  · rintro ⟨hv, heq⟩
    exact brTag_inj hv hw heq
  · rintro rfl
    exact ⟨hw, rfl⟩

theorem copies_next (ho : s.Ordered) : ∀ b ∈ (s.next i).pending,
    (s.next i).ren.mapTable.elementBrCopies b.brTag = (s.next i).renamed b.seq := by
  intro b' hb'
  funext k
  rcases mem_pending_next.mp hb' with ⟨b, hb, hf⟩ | hnew
  · have hpend := mem_pending_of_brs hb
    obtain ⟨_, _, rfl⟩ := brFilter_eq_some.mp hf
    have hnone : brCopied (renBrTags (s.renInput i)) b.brTag = none :=
      lastEncoder_eq_none.mpr fun w => decide_eq_false (renBrTags_ne ho hpend w)
    have hsame : (s.next i).ren.mapTable.elementBrCopies b.brTag k =
        s.ren.mapTable.elementBrCopies b.brTag k := by
      show (s.ren.next (s.renInput i)).mapTable.elementBrCopies b.brTag k = _
      simp only [RenameStage.next, RenameMapTable.next, hnone]
    have hrenamed := renamed_next_of_lt (i := i) (ho.lt_count b (ho.mem_window hpend))
    show (s.next i).ren.mapTable.elementBrCopies b.brTag k = (s.next i).renamed b.seq k
    rw [hsame, hrenamed, hs.copies b hpend]
  · obtain ⟨w, hw, rfl⟩ := mem_newBrs.mp hnew
    have hsome : brCopied (renBrTags (s.renInput i))
        (s.disUops i w).brTag = some w := by
      refine lastEncoder_eq_some.mpr ⟨decide_eq_true ((renBrTags_eq_iff hw).mpr rfl), ?_⟩
      intro v hv
      exact decide_eq_false fun h => hv.ne' ((renBrTags_eq_iff hw).mp h)
    have hcopy : (s.next i).ren.mapTable.elementBrCopies (s.disUops i w).brTag k =
        (lastWrite (s.ren.wens (s.renInput i)) (s.ren.pdst (s.renInput i))
          (fun x => decide (x ≤ w)) k).getD (s.ren.mapTable.element k) := by
      show (s.ren.next (s.renInput i)).mapTable.elementBrCopies (s.disUops i w).brTag k = _
      simp only [RenameStage.next, RenameMapTable.next, hsome]
    rw [hcopy, renamed_next_of_new (takesTag_eq_true.mp hw).1, tableAfter,
      element_tablesBefore _ w.isLt]
    have hle : (fun x : Bank c => decide (x ≤ w)) = fun x : Bank c => decide ((x : ℕ) < w + 1) := by
      funext x
      rw [Bool.eq_iff_iff, decide_eq_true_eq, decide_eq_true_eq, Nat.lt_succ_iff]
      exact Fin.le_def
    rw [hle]

end TablesOk

end Core

end RiscvSoc
