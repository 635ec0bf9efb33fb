import RiscvSoc.Boom.CoreStep

/-!
# The order of the micro-ops in the core

The reorder buffer, the branch masks and the branches on their way are laid out by the order of
dispatch: the window is sorted by it, and a micro-op's mask holds the tag of an unresolved branch
exactly if the branch is older. That is what makes a mispredicted branch kill what is behind it, and
it is why the window only ever loses its ends.

## The recovery

While an exception is rolled back the masks of the micro-ops that are left mean nothing. They do not
have to: the flush one cycle after the exception empties the branch unit, and nothing is dispatched
before the buffer is empty.
-/

namespace RiscvSoc

open Rob

variable {c : BOOMConf}

namespace Core

/-- The invariant about the order of dispatch. -/
structure Ordered (s : Core c) : Prop where
  shaped : s.rob.Shaped
  sorted : s.rob.window.Pairwise fun u v => u.seq < v.seq
  lt_count : ∀ u ∈ s.rob.window, u.seq < s.count
  allocates : ∀ b ∈ s.pending, b.allocatesBrTag = true
  /-- An illegal instruction may look like a branch. It is never executed. -/
  waits : ∀ b ∈ s.pending, ∃ x, (s.rob.entry x).val = true ∧
    ((s.rob.entry x).bsy = true ∨ (s.rob.entry x).exception = true) ∧ (s.rob.entry x).uop = b
  nodupTags : (s.pending.map (·.brTag)).Nodup
  branchMask : ∀ t, s.branchMask t = true ↔ ∃ b ∈ s.pending, b.brTag = t
  brMask : ∀ u ∈ s.rob.window, ∀ b ∈ s.pending, u.brMask b.brTag = true ↔ b.seq < u.seq
  brMask_le : s.rob.state ≠ .rollback → ∀ u ∈ s.rob.window, ∀ t, u.brMask t = true →
    s.branchMask t = true
  settled : s.rob.state = .rollback → s.rob.flushPipeline = false → s.pending = []
  flushed : s.rob.flushPipeline = true → s.rob.state = .rollback ∨ s.rob.window = []
  unique : ∀ u ∈ s.rob.window, u.isUnique = true →
    (s.rob.state = .waitTillEmpty ∨ s.rob.state = .rollback) ∧ ∀ v ∈ s.rob.window, v.seq ≤ u.seq
  unique_of_flush : ∀ u ∈ s.rob.window, u.exception = false → u.flushOnCommit = true →
    u.isUnique = true
  xcpt : ∀ x, (s.rob.entry x).val = true → (s.rob.entry x).uop.exception = true →
    (s.rob.entry x).exception = true
  reset : s.rob.state = .reset → s.rob.tail = s.rob.head

variable {s : Core c} {i : CoreInput c}

/-! ### Branches -/

theorem mem_pending_of_brReg {r : RobUop c} {m : Bool} (h : s.brReg = some (r, m)) :
    r ∈ s.pending := by
  rw [pending, h]
  exact List.mem_append_left _ (List.mem_singleton.mpr rfl)

theorem mem_brs {b : RobUop c} (hb : b ∈ s.pending) (hne : s.resolvedTag ≠ some b.brTag) :
    b ∈ s.brs := by
  rw [pending, List.mem_append] at hb
  refine hb.resolve_left fun hb => ?_
  obtain ⟨⟨r, m⟩, hr, rfl⟩ := List.mem_map.mp hb
  rw [Option.mem_toList] at hr
  exact hne (by rw [resolvedTag, hr]; rfl)

theorem mem_pending_of_brs {b : RobUop c} (h : b ∈ s.brs) : b ∈ s.pending :=
  List.mem_append_right _ h

namespace Ordered

variable {b : RobUop c} {u : RobUop c}

section

variable (ho : s.Ordered)
include ho

theorem mem_window (hb : b ∈ s.pending) : b ∈ s.rob.window := by
  obtain ⟨x, hx, _, hu⟩ := ho.waits b hb
  exact Rob.mem_window.mpr ⟨x, hx, hu⟩

theorem eq_of_brTag {b b' : RobUop c} (hb : b ∈ s.pending) (hb' : b' ∈ s.pending)
    (heq : b.brTag = b'.brTag) : b = b' :=
  List.inj_on_of_nodup_map ho.nodupTags hb hb' heq

/-- The branch being resolved is none of those on their way. -/
theorem brTag_ne_of_brs {r b : RobUop c} {m : Bool} (hr : s.brReg = some (r, m))
    (hb : b ∈ s.brs) : b.brTag ≠ r.brTag := by
  have hnodup := ho.nodupTags
  rw [pending, hr] at hnodup
  simp only [Option.toList_some, List.map_cons, List.map_nil, List.singleton_append,
    List.nodup_cons, List.mem_map, not_exists, not_and] at hnodup
  exact hnodup.1 b hb

theorem resolvedTag_ne (hb : b ∈ s.brs) :
    s.resolvedTag ≠ some b.brTag := by
  rw [resolvedTag]
  intro h
  obtain ⟨⟨r, m⟩, hr, htag⟩ := Option.map_eq_some_iff.mp h
  exact ho.brTag_ne_of_brs hr hb htag.symm

theorem killed_iff (hu : u ∈ s.rob.window) :
    isKilledByBranch s.brinfo u.brMask = true ↔ ∃ r, s.mispredicted r ∧ r.seq < u.seq := by
  rw [isKilledByBranch_brinfo]
  exact exists_congr fun r => and_congr_right fun hr =>
    ho.brMask u hu r (mem_pending_of_brReg hr)

theorem not_recovering (hb : b ∈ s.pending) :
    s.rob.state ≠ .rollback ∨ s.rob.flushPipeline = true := by
  by_contra h
  rw [not_or, not_not, Bool.not_eq_true] at h
  rw [ho.settled h.1 h.2] at hb
  cases hb

theorem not_rollsBack (hb : b ∈ s.pending) {x : RobSlot c}
    (hx : (s.rob.entry x).val = true) : s.rob.rollsBack x = false := by
  rw [← Bool.not_eq_true, rollsBack_eq_true]
  rintro ⟨_, htail⟩
  have hlt := ho.shaped.lt_tail (ho.not_recovering hb) x hx
  rw [htail] at hlt
  exact hlt.false

theorem not_commits (hb : b ∈ s.pending) :
    s.rob.commits (robSlot b.robIdx) = false := by
  obtain ⟨x, hx, hwaits, rfl⟩ := ho.waits b hb
  rw [ho.shaped.addressed x hx, ← Bool.not_eq_true, commits_eq_true]
  rintro ⟨hrow, hcom⟩
  obtain ⟨_, hval, hall⟩ := willCommit_eq_true.mp hcom
  obtain ⟨hfree, hlegal⟩ := hall x.2 le_rfl hval
  rw [← hrow] at hfree hlegal
  rw [hfree, hlegal] at hwaits
  simp at hwaits

theorem unique_of_commits {x : RobSlot c} (hcom : s.rob.commits x = true)
    (hflush : (s.rob.entry x).uop.flushOnCommit = true) :
    (s.rob.entry x).uop.isUnique = true := by
  have hx := val_of_commits hcom
  refine ho.unique_of_flush _ (Rob.mem_window.mpr ⟨x, hx, rfl⟩) ?_ hflush
  rw [← Bool.not_eq_true]
  intro hexc
  obtain ⟨hrow, hwill⟩ := commits_eq_true.mp hcom
  obtain ⟨_, hval, hall⟩ := willCommit_eq_true.mp hwill
  have hlegal := (hall x.2 le_rfl hval).2
  rw [← hrow, ho.xcpt x hx hexc] at hlegal
  cases hlegal

/-- In the buffer the order of dispatch is the order of the places. -/
theorem seq_lt_iff {x y : RobSlot c} (hx : (s.rob.entry x).val = true)
    (hy : (s.rob.entry y).val = true) : (s.rob.entry x).uop.seq < (s.rob.entry y).uop.seq ↔
      place s.rob.head x < place s.rob.head y := by
  have hsorted := ho.sorted
  rw [window, List.pairwise_map] at hsorted
  exact (lt_of_pairwise (pairwise_occupied _ s.rob.head) hsorted (mem_slots.mpr hx)
    (mem_slots.mpr hy)).symm

theorem accepts : s.rob.Accepts (s.robInput i) where
  ready w hw := (goes_of_disMask hw).ready
  noMispredict w hw := by
    by_contra hmis
    obtain ⟨b, hb⟩ := Option.ne_none_iff_exists'.mp hmis
    obtain ⟨r, hr, _⟩ := mispredict_robInput.mp hb
    have := (goes_of_disMask hw).noMispredict
    rw [mispredicts_eq_true.mpr ⟨r, hr⟩] at this
    cases this
  robIdx w _ := robSlot_idx (s.rob.tail, w)
  early b hb := by
    obtain ⟨r, hr, _⟩ := mispredict_robInput.mp hb
    exact ho.not_recovering (mem_pending_of_brReg hr)
  branch b hb := by
    obtain ⟨r, hr, rfl⟩ := mispredict_robInput.mp hb
    obtain ⟨x, hx, _, rfl⟩ := ho.waits r (mem_pending_of_brReg hr)
    show (s.rob.entry (robSlot (s.rob.entry x).uop.robIdx)).val = true
    rw [ho.shaped.addressed x hx]
    exact hx
  waits b hb := by
    obtain ⟨r, hr, rfl⟩ := mispredict_robInput.mp hb
    exact ho.not_commits (mem_pending_of_brReg hr)
  kills b hb y hy := by
    obtain ⟨r, hr, rfl⟩ := mispredict_robInput.mp hb
    obtain ⟨x, hx, _, rfl⟩ := ho.waits r (mem_pending_of_brReg hr)
    show s.rob.brKills _ y = true ↔
      place s.rob.head (robSlot (s.rob.entry x).uop.robIdx) < place s.rob.head y
    rw [ho.shaped.addressed x hx, ← ho.seq_lt_iff hx hy, Rob.brKills, hy, Bool.true_and]
    have hkill := ho.killed_iff (Rob.mem_window.mpr ⟨y, hy, rfl⟩)
    refine hkill.trans ⟨?_, fun h => ⟨_, hr, h⟩⟩
    rintro ⟨r', hr', hlt⟩
    rw [mispredicted, hr] at hr'
    cases hr'
    exact hlt

theorem eq_of_seq {u v : RobUop c} (hu : u ∈ s.rob.window) (hv : v ∈ s.rob.window)
    (heq : u.seq = v.seq) : u = v := by
  have hnodup : (s.rob.window.map (·.seq)).Nodup := by
    rw [List.Nodup, List.pairwise_map]
    exact ho.sorted.imp fun h => h.ne
  exact List.inj_on_of_nodup_map hnodup hu hv heq

/-- What is at most as young as a micro-op that commits commits as well. -/
theorem commits_of_seq_le {u v : RobUop c} (hu : u ∈ s.rob.window) (hv : v ∈ s.rob.window)
    (hle : v.seq ≤ u.seq) (hcom : s.commits u = true) :
    s.commits v = true := by
  rcases eq_or_lt_of_le hle with heq | hlt
  · rwa [ho.eq_of_seq hv hu heq]
  · obtain ⟨x, hx, rfl⟩ := Rob.mem_window.mp hu
    obtain ⟨y, hy, rfl⟩ := Rob.mem_window.mp hv
    rw [commits, ho.shaped.addressed x hx] at hcom
    rw [commits, ho.shaped.addressed y hy]
    exact commits_of_place_lt hcom hy ((ho.seq_lt_iff hy hx).mp hlt)

/-! ### A cycle of the window -/

theorem removes_eq_false (hu : u ∈ s.rob.window) :
    s.rob.removes (s.robInput i) (robSlot u.robIdx) = false ↔ s.commits u = false ∧
      (∀ r, s.mispredicted r → u.seq ≤ r.seq) ∧ s.rob.rollsBack (robSlot u.robIdx) = false := by
  have hkill : s.rob.brKills (s.robInput i) (robSlot u.robIdx) = false ↔
      ∀ r, s.mispredicted r → u.seq ≤ r.seq := by
    obtain ⟨x, hx, rfl⟩ := Rob.mem_window.mp hu
    have hiff := ho.killed_iff hu
    rw [ho.shaped.addressed x hx, Rob.brKills, hx, Bool.true_and, ← Bool.not_eq_true]
    refine (not_congr hiff).trans ?_
    simp only [not_exists, not_and, not_lt]
  rw [Rob.removes_eq_false, hkill]
  rfl

theorem window_next : (s.next i).rob.window =
    (s.rob.window.filter fun u => !s.rob.removes (s.robInput i) (robSlot u.robIdx)).map
      (RobUop.resolve s.brinfo) ++ s.newUops i :=
  ho.shaped.window_next ho.accepts

theorem mem_window_next {u' : RobUop c} : u' ∈ (s.next i).rob.window ↔
    (∃ u ∈ s.rob.window, s.rob.removes (s.robInput i) (robSlot u.robIdx) = false ∧
      u.resolve s.brinfo = u') ∨ u' ∈ s.newUops i := by
  rw [ho.window_next, List.mem_append, List.mem_map]
  refine or_congr_left (exists_congr fun u => ?_)
  rw [List.mem_filter, Bool.not_eq_true', and_assoc]

theorem sorted_next :
    (s.next i).rob.window.Pairwise fun u v => u.seq < v.seq := by
  rw [ho.window_next, List.pairwise_append]
  refine ⟨?_, pairwise_newUops, fun u' hu' v hv => ?_⟩
  · rw [List.pairwise_map]
    exact ho.sorted.filter _
  · obtain ⟨u, hu, rfl⟩ := List.mem_map.mp hu'
    exact (ho.lt_count u (List.mem_filter.mp hu).1).trans_le (seq_newUops hv).1

theorem lt_count_next : ∀ u ∈ (s.next i).rob.window, u.seq < (s.next i).count := by
  intro u' hu'
  show u'.seq < s.count + (s.newUops i).length
  rcases ho.mem_window_next.mp hu' with ⟨u, hu, _, rfl⟩ | hnew
  · exact (ho.lt_count u hu).trans_le (Nat.le_add_right _ _)
  · exact (seq_newUops hnew).2

/-! ### A cycle of the branches -/

theorem stays_of_brFilter {b b' : RobUop c} (hb : b ∈ s.brs) (hb' : s.brFilter b = some b') :
    s.rob.removes (s.robInput i) (robSlot b.robIdx) = false := by
  have hpend := mem_pending_of_brs hb
  have hwin := ho.mem_window hpend
  obtain ⟨_, hkill, _⟩ := brFilter_eq_some.mp hb'
  refine (ho.removes_eq_false hwin).mpr ⟨ho.not_commits hpend, fun r hr => ?_, ?_⟩
  · by_contra hlt
    have := (ho.killed_iff hwin).mpr ⟨r, hr, not_le.mp hlt⟩
    rw [hkill] at this
    cases this
  · obtain ⟨x, hx, _, rfl⟩ := ho.waits b hpend
    rw [ho.shaped.addressed x hx]
    exact ho.not_rollsBack hpend hx

theorem allocates_next : ∀ b ∈ (s.next i).pending, b.allocatesBrTag = true := by
  intro b' hb'
  rcases mem_pending_next.mp hb' with ⟨b, hb, hf⟩ | hnew
  · obtain ⟨_, _, rfl⟩ := brFilter_eq_some.mp hf
    exact ho.allocates b (mem_pending_of_brs hb)
  · exact (List.mem_filter.mp hnew).2

theorem waits_next (hok : i.Ok s) : ∀ b ∈ (s.next i).pending,
    ∃ x, ((s.next i).rob.entry x).val = true ∧
      (((s.next i).rob.entry x).bsy = true ∨ ((s.next i).rob.entry x).exception = true) ∧
      ((s.next i).rob.entry x).uop = b := by
  intro b' hb'
  rcases mem_pending_next.mp hb' with ⟨b, hb, hf⟩ | hb'
  · have hpend := mem_pending_of_brs hb
    have hkeep := ho.stays_of_brFilter (i := i) hb hf
    have hclear := hok b (List.mem_append_left _ hb) (ho.allocates b hpend)
    obtain ⟨x, hx, hwaits, rfl⟩ := ho.waits b hpend
    rw [ho.shaped.addressed x hx] at hkeep hclear
    obtain ⟨_, _, rfl⟩ := brFilter_eq_some.mp hf
    refine ⟨x, val_next_eq_true.mpr ⟨hkeep, .inr hx⟩, hwaits.imp ?_ fun hexc => ?_, ?_⟩
    · exact (bsy_next_of_stays ho.shaped ho.accepts hx hclear).trans
    · refine exception_next hkeep ((if_neg ?_).mpr hexc)
      exact ne_true_of_eq_false (ho.shaped.fills_of_val ho.accepts hx)
    · exact uop_next_of_stays ho.shaped ho.accepts hx hkeep
  · obtain ⟨hnew, hbr⟩ := List.mem_filter.mp hb'
    obtain ⟨w, hw, rfl⟩ := mem_newUops.mp hnew
    have hfill : s.rob.fills (s.robInput i) (s.rob.tail, w) = true :=
      fills_eq_true.mpr ⟨rfl, hw⟩
    have hclear := hok _ (List.mem_append_right _ hnew) hbr
    have haddr : robSlot (s.disUops i w).robIdx = (s.rob.tail, w) := robSlot_idx (s.rob.tail, w)
    rw [haddr] at hclear
    have hval := val_next_of_fills ho.shaped ho.accepts hfill
    have huop := uop_next_of_fills ho.shaped ho.accepts hfill
    cases hexc : (i.decInsts w).exception with
    | true =>
      have hnext := exception_next (val_next_eq_true.mp hval).1 ((if_pos hfill).mpr hexc)
      exact ⟨(s.rob.tail, w), hval, .inr hnext, huop⟩
    | false =>
    refine ⟨(s.rob.tail, w), hval, .inl ?_, huop⟩
    refine (bsy_next_of_fills hfill hclear).trans ?_
    have hdec : (i.decInsts w).isBrOrJmp = true ∧ (i.decInsts w).isJal = false := by
      have hbr : ((i.decInsts w).isBrOrJmp && !(i.decInsts w).isJal) = true := hbr
      rwa [Bool.and_eq_true, Bool.not_eq_true'] at hbr
    obtain ⟨hsret, hmem, hfencei⟩ := (i.decInsts w).busy_of_branch hexc hdec.1 hdec.2
    show (!(i.decInsts w).isSret && !(i.decInsts w).isMemSpecial && !(i.decInsts w).isFencei) = true
    rw [hsret, hmem, hfencei]
    rfl

theorem nodupTags_next : ((s.next i).pending.map (·.brTag)).Nodup := by
  rw [(pending_next_perm.map _).nodup_iff, List.map_append, List.nodup_append]
  have hbrs : (s.brs.map (·.brTag)).Nodup := by
    have hnodup := ho.nodupTags
    rw [pending, List.map_append] at hnodup
    exact (List.nodup_append.mp hnodup).2.1
  have hleft : ((s.brs.filterMap s.brFilter).map (·.brTag)).Sublist (s.brs.map (·.brTag)) := by
    induction s.brs with
    | nil => exact .slnil
    | cons b l ih =>
      cases hf : s.brFilter b with
      | none =>
        rw [List.filterMap_cons_none hf]
        exact ih.cons _
      | some b' =>
        rw [List.filterMap_cons_some hf]
        obtain ⟨_, _, rfl⟩ := brFilter_eq_some.mp hf
        exact ih.cons_cons _
  refine ⟨hbrs.sublist hleft, ?_, ?_⟩
  · have htags : ((s.disSlots i).filter fun w => (s.disUops i w).allocatesBrTag).Pairwise
        fun v w => (s.disUops i v).brTag ≠ (s.disUops i w).brTag := by
      refine (pairwise_disSlots.filter _).imp_of_mem fun hv hw hlt => ?_
      obtain ⟨hv, hbv⟩ := List.mem_filter.mp hv
      obtain ⟨hw, hbw⟩ := List.mem_filter.mp hw
      exact brTag_ne (takesTag_eq_true.mpr ⟨mem_disSlots.mp hv, hbv⟩)
        (takesTag_eq_true.mpr ⟨mem_disSlots.mp hw, hbw⟩) hlt
    rw [newBrs, newUops_eq, List.filter_map, List.map_map, List.Nodup, List.pairwise_map]
    exact htags
  · intro t ht t' ht' heq
    obtain ⟨b', hb', rfl⟩ := List.mem_map.mp ht
    obtain ⟨b, hb, hf⟩ := List.mem_filterMap.mp hb'
    obtain ⟨u, hu, rfl⟩ := List.mem_map.mp ht'
    obtain ⟨w, hw, rfl⟩ := mem_newBrs.mp hu
    obtain ⟨_, _, rfl⟩ := brFilter_eq_some.mp hf
    have hfree := branchMask_brTag hw
    rw [(ho.branchMask _).mpr ⟨b, mem_pending_of_brs hb, heq⟩] at hfree
    cases hfree

/-! ### A cycle of the masks -/

theorem brFilter_of_le (hb : b ∈ s.brs) (hflush : s.rob.flushPipeline = false)
    (hle : ∀ r, s.mispredicted r → b.seq ≤ r.seq) :
    s.brFilter b = some (b.resolve s.brinfo) := by
  refine brFilter_eq_some.mpr ⟨hflush, ?_, rfl⟩
  rw [← Bool.not_eq_true, ho.killed_iff (ho.mem_window (mem_pending_of_brs hb))]
  rintro ⟨r, hr, hlt⟩
  exact hlt.not_ge (hle r hr)

/-- The tag being resolved is not handed out again in the same cycle. -/
theorem resolvedTag_ne_new {w : Bank c} (hw : s.takesTag i w = true) :
    s.resolvedTag ≠ some (s.disUops i w).brTag := by
  rw [resolvedTag]
  intro h
  obtain ⟨⟨r, m⟩, hr, htag⟩ := Option.map_eq_some_iff.mp h
  have hfree := branchMask_brTag hw
  rw [(ho.branchMask _).mpr ⟨r, mem_pending_of_brReg hr, htag⟩] at hfree
  cases hfree

end

theorem pending_next_nil (h : s.rob.flushPipeline = true ∨ s.brs = [])
    (hnew : s.newUops i = []) : (s.next i).pending = [] := by
  rw [List.eq_nil_iff_forall_not_mem]
  intro b' hb'
  rcases mem_pending_next.mp hb' with ⟨b, hb, hf⟩ | hb'
  · rcases h with h | h
    · rw [(brFilter_eq_some.mp hf).1] at h
      cases h
    · rw [h] at hb
      cases hb
  · rw [newBrs, hnew] at hb'
    cases hb'

section

variable (ho : s.Ordered)
include ho

theorem branchMask_next (t : Fin c.maxBrCount) :
    (s.next i).branchMask t = true ↔ ∃ b ∈ (s.next i).pending, b.brTag = t := by
  show s.nextBranchMask i t = true ↔ _
  rw [nextBranchMask]
  by_cases hflush : s.rob.flushPipeline = true
  · rw [if_pos hflush, pending_next_nil (.inl hflush) (newUops_of_kill (.inr (.inl hflush)))]
    simp
  rw [if_neg hflush]
  rw [Bool.not_eq_true] at hflush
  cases hmis : s.brinfo.filter fun b => b.mispredict with
  | some b =>
    -- what is left are the branches in the mask of the branch itself
    obtain ⟨r, hr, rfl⟩ := mispredict_robInput (i := i).mp hmis
    have hrpend := mem_pending_of_brReg hr
    have hrwin := ho.mem_window hrpend
    have honly : ∀ r', s.mispredicted r' → r' = r := by
      intro r' hr'
      rw [mispredicted, hr] at hr'
      cases hr'
      rfl
    show r.brMask t = true ↔ _
    constructor
    · intro ht
      have hstate := (ho.not_recovering hrpend).resolve_right (by simp [hflush])
      obtain ⟨b, hb, rfl⟩ := (ho.branchMask t).mp (ho.brMask_le hstate r hrwin t ht)
      have hlt := (ho.brMask r hrwin b hb).mp ht
      have hbrs : b ∈ s.brs := by
        refine mem_brs hb ?_
        rw [resolvedTag, hr]
        intro htag
        exact hlt.ne (congrArg _ (ho.eq_of_brTag hb hrpend (Option.some.inj htag).symm))
      refine ⟨_, mem_pending_next.mpr (.inl ⟨b, hbrs, ho.brFilter_of_le hbrs hflush ?_⟩), rfl⟩
      intro r' hr'
      rw [honly r' hr']
      exact hlt.le
    · rintro ⟨b', hb', rfl⟩
      rcases mem_pending_next.mp hb' with ⟨b, hb, hf⟩ | hb'
      · have hkeep := ho.stays_of_brFilter (i := i) hb hf
        have hbpend := mem_pending_of_brs hb
        have hbwin := ho.mem_window hbpend
        have hle := ((ho.removes_eq_false hbwin).mp hkeep).2.1 r hr
        obtain ⟨_, _, rfl⟩ := brFilter_eq_some.mp hf
        refine (ho.brMask r hrwin b hbpend).mpr (lt_of_le_of_ne hle fun heq => ?_)
        exact ho.brTag_ne_of_brs hr hb (by rw [ho.eq_of_seq hbwin hrwin heq])
      · rw [newBrs, newUops_of_kill (.inl (mispredicts_eq_true.mpr ⟨r, hr⟩))] at hb'
        cases hb'
  | none =>
    have hnone : ∀ r, ¬s.mispredicted r := by
      intro r hr
      have := mispredict_robInput (i := i).mpr ⟨r, hr, rfl⟩
      rw [show (s.robInput i).mispredict = none from hmis] at this
      cases this
    dsimp only
    rw [getNewBrMask_brinfo, currBrMask_turn le_rfl]
    constructor
    · rintro ⟨ht | ⟨w, _, hw, rfl⟩, hres⟩
      · obtain ⟨b, hb, rfl⟩ := (ho.branchMask t).mp ht
        have hbrs := mem_brs hb hres
        exact ⟨_, mem_pending_next.mpr (.inl ⟨b, hbrs, ho.brFilter_of_le hbrs hflush
          fun r hr => absurd hr (hnone r)⟩), rfl⟩
      · exact ⟨_, mem_pending_next.mpr (.inr (mem_newBrs.mpr ⟨w, hw, rfl⟩)), rfl⟩
    · rintro ⟨b', hb', rfl⟩
      rcases mem_pending_next.mp hb' with ⟨b, hb, hf⟩ | hb'
      · obtain ⟨_, _, rfl⟩ := brFilter_eq_some.mp hf
        exact ⟨.inl ((ho.branchMask _).mpr ⟨b, mem_pending_of_brs hb, rfl⟩),
          ho.resolvedTag_ne (b := b) hb⟩
      · obtain ⟨w, hw, rfl⟩ := mem_newBrs.mp hb'
        exact ⟨.inr ⟨w, w.isLt, hw, rfl⟩, ho.resolvedTag_ne_new hw⟩

theorem brMask_next : ∀ u ∈ (s.next i).rob.window, ∀ b ∈ (s.next i).pending,
    u.brMask b.brTag = true ↔ b.seq < u.seq := by
  intro u' hu' b' hb'
  rcases ho.mem_window_next.mp hu' with ⟨u, hu, _, rfl⟩ | hunew
  · rcases mem_pending_next.mp hb' with ⟨b, hb, hf⟩ | hbnew
    · obtain ⟨_, _, rfl⟩ := brFilter_eq_some.mp hf
      rw [RobUop.resolve_brMask, getNewBrMask_brinfo, RobUop.resolve_brTag,
        and_iff_left (ho.resolvedTag_ne hb)]
      exact ho.brMask u hu b (mem_pending_of_brs hb)
    · -- a new tag is in no mask yet
      obtain ⟨w, hw, rfl⟩ := mem_newBrs.mp hbnew
      have hdis := (takesTag_eq_true.mp hw).1
      have hstate : s.rob.state ≠ .rollback := by
        rw [(ready_eq_true.mp (goes_of_disMask hdis).ready).1]
        decide
      have hseq := (seq_newUops (mem_newUops.mpr ⟨w, hdis, rfl⟩)).1
      refine iff_of_false (fun h => ?_) ((ho.lt_count u hu).trans_le hseq).not_gt
      have hfree := branchMask_brTag hw
      rw [ho.brMask_le hstate u hu _ (getNewBrMask_le _ h)] at hfree
      cases hfree
  · obtain ⟨v, hv, rfl⟩ := mem_newUops.mp hunew
    rw [brMask_disUops]
    rcases mem_pending_next.mp hb' with ⟨b, hb, hf⟩ | hbnew
    · obtain ⟨_, _, rfl⟩ := brFilter_eq_some.mp hf
      have hbpend := mem_pending_of_brs hb
      refine iff_of_true ⟨.inl ((ho.branchMask _).mpr ⟨b, hbpend, rfl⟩),
        ho.resolvedTag_ne (b := b) hb⟩ ?_
      exact (ho.lt_count b (ho.mem_window hbpend)).trans_le (seq_newUops hunew).1
    · obtain ⟨w, hw, rfl⟩ := mem_newBrs.mp hbnew
      rw [seq_disUops_lt (takesTag_eq_true.mp hw).1 hv, and_iff_left (ho.resolvedTag_ne_new hw),
        branchMask_brTag hw]
      constructor
      · rintro (h | ⟨x, hx, htakes, htag⟩)
        · cases h
        · rwa [← brTag_inj htakes hw htag]
      · intro hlt
        exact .inr ⟨w, hlt, hw, rfl⟩

theorem window_next_nil (hroll : s.rob.state = .rollback)
    (hnext : (s.next i).rob.state ≠ .rollback) : (s.next i).rob.window = [] := by
  rw [List.eq_nil_iff_forall_not_mem]
  intro u hu
  obtain ⟨x, hx, _⟩ := Rob.mem_window.mp hu
  have hstate : (s.next i).rob.state = if s.rob.tail = s.rob.head then .normal else .rollback :=
    state_next_of_rollback hroll
  by_cases heq : s.rob.tail = s.rob.head
  · have hval : ((s.next i).rob.entry x).val = false :=
      ho.shaped.vacant_next ho.accepts hroll heq x
    rw [hval] at hx
    cases hx
  · rw [if_neg heq] at hstate
    exact hnext hstate

theorem brMask_le_next (hnext : (s.next i).rob.state ≠ .rollback) :
    ∀ u ∈ (s.next i).rob.window, ∀ t, u.brMask t = true → (s.next i).branchMask t = true := by
  intro u' hu' t ht
  have hstate : s.rob.state ≠ .rollback := by
    intro hroll
    rw [ho.window_next_nil hroll hnext] at hu'
    cases hu'
  have hflush : s.rob.flushPipeline = false := by
    rw [← Bool.not_eq_true]
    intro hflush
    have hempty := (ho.flushed hflush).resolve_left hstate
    rw [ho.window_next, hempty, newUops_of_kill (.inr (.inl hflush))] at hu'
    cases hu'
  rw [ho.branchMask_next]
  rcases ho.mem_window_next.mp hu' with ⟨u, hu, hkeep, rfl⟩ | hunew
  · obtain ⟨ht, hres⟩ := getNewBrMask_brinfo.mp ht
    obtain ⟨b, hb, rfl⟩ := (ho.branchMask t).mp (ho.brMask_le hstate u hu t ht)
    have hbrs := mem_brs hb hres
    refine ⟨_, mem_pending_next.mpr (.inl ⟨b, hbrs, ho.brFilter_of_le hbrs hflush ?_⟩), rfl⟩
    intro r hr
    have hle := ((ho.removes_eq_false hu).mp hkeep).2.1 r hr
    exact ((ho.brMask u hu b hb).mp ht).le.trans hle
  · obtain ⟨v, hv, rfl⟩ := mem_newUops.mp hunew
    obtain ⟨ht | ⟨w, _, hw, rfl⟩, hres⟩ := brMask_disUops.mp ht
    · obtain ⟨b, hb, rfl⟩ := (ho.branchMask t).mp ht
      have hbrs := mem_brs hb hres
      refine ⟨_, mem_pending_next.mpr (.inl ⟨b, hbrs, ho.brFilter_of_le hbrs hflush ?_⟩), rfl⟩
      intro r hr
      have := (goes_of_disMask hv).noMispredict
      rw [mispredicts_eq_true.mpr ⟨r, hr⟩] at this
      cases this
    · exact ⟨_, mem_pending_next.mpr (.inr (mem_newBrs.mpr ⟨w, hw, rfl⟩)), rfl⟩

/-! ### A cycle of the recovery -/

theorem settled_next (hroll : (s.next i).rob.state = .rollback)
    (hflush : (s.next i).rob.flushPipeline = false) : (s.next i).pending = [] := by
  rcases nextState_rollback hroll with hstate | hthrow
  · refine pending_next_nil ?_ (newUops_of_kill (.inr (.inr (by rw [hstate]; decide))))
    by_cases hf : s.rob.flushPipeline = true
    · exact .inl hf
    · have hnil := ho.settled hstate (Bool.not_eq_true _ ▸ hf)
      exact .inr (List.append_eq_nil_iff.mp hnil).2
  · have hval : (s.next i).rob.flushPipeline = s.rob.flushVal := rfl
    rw [hval, flushVal, hthrow] at hflush
    cases hflush

theorem flushed_next (hflush : (s.next i).rob.flushPipeline = true) :
    (s.next i).rob.state = .rollback ∨ (s.next i).rob.window = [] := by
  have hflush : s.rob.flushVal = true := hflush
  rw [flushVal, Bool.or_eq_true, orR_eq_true] at hflush
  rcases hflush with hthrow | ⟨w, hw⟩
  · exact .inl (nextState_of_exceptionThrown hthrow)
  · -- an instruction that flushes the pipeline is the last one in the buffer
    obtain ⟨hcom, hfl⟩ := Bool.and_eq_true_iff.mp hw
    have hcommits : s.rob.commits (s.rob.head, w) = true := commits_eq_true.mpr ⟨rfl, hcom⟩
    have hval := val_of_commits hcommits
    have hnoroll := not_rollback_of_commits hcommits
    rw [comUops, comIdx, if_neg hnoroll] at hfl
    have hu : (s.rob.entry (s.rob.head, w)).uop ∈ s.rob.window := Rob.mem_window.mpr ⟨_, hval, rfl⟩
    obtain ⟨hstate, hlast⟩ := ho.unique _ hu (ho.unique_of_commits hcommits hfl)
    have hwait := hstate.resolve_right hnoroll
    have hcomu : s.commits (s.rob.entry (s.rob.head, w)).uop = true := by
      rw [commits, ho.shaped.addressed _ hval]
      exact hcommits
    right
    rw [List.eq_nil_iff_forall_not_mem]
    intro v' hv'
    rcases ho.mem_window_next.mp hv' with ⟨v, hv, hkeep, rfl⟩ | hnew
    · have hno := ((ho.removes_eq_false hv).mp hkeep).1
      rw [ho.commits_of_seq_le hu hv (hlast v hv) hcomu] at hno
      cases hno
    · rw [newUops_of_kill (.inr (.inr (by rw [hwait]; decide)))] at hnew
      cases hnew

theorem unique_next : ∀ u ∈ (s.next i).rob.window, u.isUnique = true →
    ((s.next i).rob.state = .waitTillEmpty ∨ (s.next i).rob.state = .rollback) ∧
      ∀ v ∈ (s.next i).rob.window, v.seq ≤ u.seq := by
  intro u' hu' hunique
  have hstate : (s.next i).rob.state = s.rob.nextState (s.robInput i) := rfl
  rcases ho.mem_window_next.mp hu' with ⟨u, hu, _, rfl⟩ | hnew
  · obtain ⟨hwait, hlast⟩ := ho.unique u hu hunique
    refine ⟨?_, fun v' hv' => ?_⟩
    · rcases hwait with hwait | hroll
      · obtain ⟨x, hx, _⟩ := Rob.mem_window.mp hu
        have hne : s.rob.tail ≠ s.rob.head := by
          intro heq
          have hlt := ho.shaped.lt_tail (.inl (by rw [hwait]; decide)) x hx
          rw [heq, rowPlace_self] at hlt
          exact Nat.not_lt_zero _ hlt
        rw [hstate, nextState, hwait]
        dsimp only
        rw [if_neg hne]
        cases s.rob.exceptionThrown <;> simp
      · by_contra hno
        rw [not_or] at hno
        rw [ho.window_next_nil hroll hno.2] at hu'
        cases hu'
    · rcases ho.mem_window_next.mp hv' with ⟨v, hv, _, rfl⟩ | hvnew
      · exact hlast v hv
      · rw [newUops_of_kill (.inr (.inr (by rcases hwait with h | h <;> simp [h])))] at hvnew
        cases hvnew
  · obtain ⟨w, hw, rfl⟩ := mem_newUops.mp hnew
    have hgoes := goes_of_disMask hw
    have hempty : s.rob.head = s.rob.tail := of_decide_eq_true (hgoes.unique hunique)
    have hnormal := (ready_eq_true.mp hgoes.ready).1
    refine ⟨.inl ?_, fun v' hv' => ?_⟩
    · have hnothrow : s.rob.exceptionThrown = false := by
        rw [← Bool.not_eq_true, exceptionThrown_eq_true]
        rintro ⟨_, v, hv, _⟩
        have hlt := ho.shaped.lt_tail (.inl (by rw [hnormal]; decide)) (s.rob.head, v) hv
        rw [← hempty] at hlt
        exact hlt.false
      have hany : (orR fun w => (s.robInput i).disMask w && ((s.robInput i).disUops w).isUnique) =
          true := orR_eq_true.mpr ⟨w, by rw [Bool.and_eq_true]; exact ⟨hw, hunique⟩⟩
      rw [hstate, nextState, hnormal]
      dsimp only
      rw [hnothrow, hany]
      rfl
    · rcases ho.mem_window_next.mp hv' with ⟨v, hv, _, rfl⟩ | hvnew
      · exact ((ho.lt_count v hv).trans_le (seq_newUops hnew).1).le
      · obtain ⟨x, hx, rfl⟩ := mem_newUops.mp hvnew
        rcases lt_trichotomy x w with hlt | rfl | hgt
        · exact ((seq_disUops_lt hx hw).mpr hlt).le
        · exact le_rfl
        · rw [disMask_of_unique hw hunique hgt] at hx
          cases hx

theorem xcpt_next {x : RobSlot c} (hx : ((s.next i).rob.entry x).val = true)
    (hexc : ((s.rob.next (s.robInput i)).entry x).uop.exception = true) :
    ((s.next i).rob.entry x).exception = true := by
  obtain ⟨hkeep, hfill | hval⟩ := val_next_eq_true.mp hx
  · have huop := uop_next_of_fills ho.shaped ho.accepts hfill
    rw [huop] at hexc
    exact exception_next hkeep ((if_pos hfill).mpr hexc)
  · have huop := uop_next_of_stays ho.shaped ho.accepts hval hkeep
    rw [huop] at hexc
    refine exception_next hkeep ((if_neg ?_).mpr (ho.xcpt x hval hexc))
    exact ne_true_of_eq_false (ho.shaped.fills_of_val ho.accepts hval)

/-- **The order is kept.** -/
theorem next (hok : i.Ok s) : (s.next i).Ordered where
  shaped := ho.shaped.next ho.accepts
  sorted := ho.sorted_next
  lt_count := ho.lt_count_next
  allocates := ho.allocates_next
  waits := ho.waits_next hok
  nodupTags := ho.nodupTags_next
  branchMask := ho.branchMask_next
  brMask := ho.brMask_next
  brMask_le := ho.brMask_le_next
  settled := ho.settled_next
  flushed := ho.flushed_next
  unique := ho.unique_next
  unique_of_flush u' hu' hexc hfl := by
    rcases ho.mem_window_next.mp hu' with ⟨u, hu, _, rfl⟩ | hnew
    · exact ho.unique_of_flush u hu hexc hfl
    · obtain ⟨w, _, rfl⟩ := mem_newUops.mp hnew
      exact (i.decInsts w).unique_of_flush hexc hfl
  xcpt _ := ho.xcpt_next
  reset h := absurd h nextState_ne_reset

end

end Ordered

/-! ### Runs -/

theorem window_of_isReset (h : s.rob.IsReset) : s.rob.window = [] := by
  rw [List.eq_nil_iff_forall_not_mem]
  intro u hu
  obtain ⟨x, hx, _⟩ := Rob.mem_window.mp hu
  rw [h.val x] at hx
  cases hx

theorem IsReset.ordered (h : s.IsReset) : s.Ordered := by
  have hwin := window_of_isReset h.rob
  have hpend : s.pending = [] := by
    rw [pending, h.brs, h.brReg]
    rfl
  have hval := h.rob.val
  constructor
  · refine ⟨fun x hx => ?_, fun _ x hx => ?_, fun _ r hr => ?_, fun x hx => ?_⟩
    · rw [hval] at hx
      cases hx
    · rw [hval] at hx
      cases hx
    · rw [h.rob.head, h.rob.tail, rowPlace_self] at hr
      exact absurd hr (Nat.not_lt_zero _)
    · rw [hval] at hx
      cases hx
  all_goals simp [hwin, hpend, hval, h.branchMask, h.rob.head, h.rob.tail]

/-- **In every reachable state the core is ordered.** -/
theorem reachable_ordered (h : (machine c).Reachable s) : s.Ordered := by
  refine Machine.invariant (I := Ordered) (fun _ => IsReset.ordered) ?_ s h
  rintro s i _ _ ho ⟨hok, rfl⟩
  exact ho.next hok

end Core

end RiscvSoc
