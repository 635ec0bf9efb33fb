import RiscvSoc.Boom.CoreSources
import RiscvSoc.Boom.Issue

/-!
# Wakeups

The core with its issue unit. A register is marked busy when it is handed out to a micro-op and free
of that mark when a port wakes it up, by writing it back or ahead of that. A micro-op reads the
marks of its operands as it is renamed, and from then on its slot listens to the ports itself. So
that no wakeup is lost between the two, a mark that is being cleared reads as clear; so that none
comes too early, an operand that the same bundle produces is marked whatever the table says.

A history variable notes when each register was handed out and when it was woken up. The ports are
inputs, so nothing is assumed about which registers they wake up, or when.

## What keeps a wakeup from being too early

While a micro-op waits, the registers it names are not handed out again. This is where the rest of
the core comes in: the micro-op is busy in the reorder buffer as long as it waits, so it does not
commit, and neither does the one that overwrote its sources.
-/

namespace RiscvSoc

open IssueUnit

variable {c : BOOMConf} {N n W : ℕ}

/-! ### The operands of a slot -/

/-- `slot_p1`, or `slot_p2`. -/
def IssueSlot.ready (s : IssueSlot c) : Operand → Bool
  | .first => s.slotP1
  | .second => s.slotP2

/-- The micro-op of a slot is one of the buffer, or a half of it. -/
structure IssueUop.PartOf (v : IssueUop c) (u : RobUop c) : Prop where
  robIdx : v.robIdx = u.robIdx
  brMask : v.brMask = u.brMask
  pop : ∀ o, v.pop o = u.pop o
  rtype : ∀ o, v.lrsRtype o = .fix → u.lrsRtype o = .fix

theorem IssueUop.half_partOf {u : IssueUop c} (hsta : u.uopc = .sta → ∀ o, u.lrsRtype o = .fix)
    (b : Bool) : (u.half b).PartOf u.toRobUop := by
  by_cases h : u.uopc = .sta
  · have hfix := hsta h
    cases b <;> simp only [half, if_pos h, if_true, Bool.false_eq_true, if_false] <;>
      exact ⟨rfl, rfl, fun o => by cases o <;> rfl, fun o _ => hfix o⟩
  · rw [half, if_neg h]
    exact ⟨rfl, rfl, fun _ => rfl, fun _ => id⟩

namespace IssueUnit

variable {hp : IssueUop c → Bool} {s : IssueUnit c N} {i : IssueInput c n W}

variable {k : Fin N}

/-- What waits after a cycle was written in it or goes on waiting. -/
theorem of_valid_next (h : ((s.next hp i).slots k).slotValid = true) :
    (∃ w b, s.writes i k w b = true) ∨ s.writer i k = none ∧ (s.slots k).slotValid = true ∧
      s.killed i k = false ∧ (s.selection hp i).issue k = false := by
  cases hwriter : s.writer i k with
  | some x => exact .inl ⟨x.1, x.2, writer_eq_some.mp hwriter⟩
  | none =>
    rw [next_of_not_writes hwriter, Bool.and_eq_true, Bool.and_eq_true, Bool.not_eq_true',
      Bool.not_eq_true'] at h
    exact .inr ⟨rfl, h.1.1, h.1.2, h.2⟩

/-- An operand in a slot that is not written listens to the ports. -/
theorem ready_of_not_writes (h : s.writer i k = none) (o : Operand) :
    ((s.next hp i).slots k).ready o =
      ((s.slots k).ready o || decide ((s.slots k).slotUop.pop o ∈ i.wakeups)) := by
  have hin : s.inUop i k = none := by rw [inUop, h, Option.map_none]
  cases o <;> simp only [next, IssueSlot.next, IssueSlot.ready, slotInput, hin] <;> rfl

variable {w : Fin n} {b : Bool} {o : Operand}

/-- An operand that is written starts with what the busy table said. -/
theorem ready_of_writes (h : s.writes i k w b = true)
    (hfix : ((i.disUops w).half b).lrsRtype o = .fix) :
    ((s.next hp i).slots k).ready o = !(i.disUops w).prsBusy o := by
  have hin : s.inUop i k = some (i.disUops w, b) := by
    rw [inUop, writer_of_writes h]
    rfl
  rw [IssueUop.half] at hfix
  cases o with
  | first =>
    have hlisten : ¬((i.disUops w).uopc = .sta ∧ b = true) := by
      rintro ⟨hsta, rfl⟩
      rw [if_pos hsta, if_pos rfl] at hfix
      cases hfix
    simp only [next, IssueSlot.next, IssueSlot.ready, slotInput, hin, if_neg hlisten]
    rfl
  | second =>
    have hlisten : ¬((i.disUops w).uopc = .sta ∧ b = false) := by
      rintro ⟨hsta, rfl⟩
      rw [if_pos hsta, if_neg (by simp)] at hfix
      cases hfix
    simp only [next, IssueSlot.next, IssueSlot.ready, slotInput, hin, if_neg hlisten]
    rfl

/-- An operand that is no register is ready from the start. -/
theorem ready_of_writes_x (h : s.writes i k w b = true)
    (hx : ((i.disUops w).half b).lrsRtype o ≠ .fix)
    (hidle : (i.disUops w).lrsRtype o ≠ .fix → (i.disUops w).prsBusy o = false) :
    ((s.next hp i).slots k).ready o = true := by
  have hin : s.inUop i k = some (i.disUops w, b) := by
    rw [inUop, writer_of_writes h]
    rfl
  rw [IssueUop.half] at hx
  by_cases hsta : (i.disUops w).uopc = .sta
  · rw [if_pos hsta] at hx
    cases o <;> cases b <;> first
      | exact absurd rfl hx
      | simp only [next, IssueSlot.next, IssueSlot.ready, slotInput, hin, hsta, and_self, if_true]
  · rw [if_neg hsta] at hx
    have hfree := hidle hx
    cases o <;> simp only [next, IssueSlot.next, IssueSlot.ready, slotInput, hin, hsta,
      false_and, if_false, Bool.not_eq_true'] <;> exact hfree

end IssueUnit

/-! ### The core with its issue unit -/

/-- What the issue unit is told about a decoded instruction. Two facts about the rows of the decode
table come with it: a store has two operands, and what has an operand is executed by a unit. -/
structure IssueDec (d : DecInst c) where
  uopc : IssueUopc
  inst : ℕ
  fuCode : ℕ
  syscall : Bool
  fix_of_sta : d.exception = false → uopc = .sta → ∀ o, d.lrsRtype o = .fix
  busy_of_fix : d.exception = false → ∀ o, d.lrsRtype o = .fix →
    d.isSret = false ∧ d.isMemSpecial = false ∧ d.isFencei = false

structure CoreIssue (c : BOOMConf) (N : ℕ) where
  core : Core c
  issue : IssueUnit c N

/-- What the outside drives in one cycle. `dis_inst_can_proceed` is not taken from here. -/
structure CoreIssueInput (c : BOOMConf) (W : ℕ) where
  core : CoreInput c
  decs : ∀ w, IssueDec (core.decInsts w)
  fuTypes : Fin W → ℕ

/-- When each register was handed out and woken up the last time. -/
structure WakeLog (c : BOOMConf) where
  now : ℕ
  allocated : PReg c → Option ℕ
  woken : PReg c → Option ℕ

/-- The register was woken up since it was handed out. `P0` never is handed out. -/
def WakeLog.WokenSince (h : WakeLog c) (p : PReg c) : Prop :=
  ∀ t, h.allocated p = some t → ∃ t', h.woken p = some t' ∧ t < t'

/-- The register is handed out in this cycle. -/
def Core.handsOut (s : Core c) (i : CoreInput c) (p : PReg c) : Bool := orR fun w : Bank c =>
  decide ((if s.ren.writes (s.renInput i) w then s.ren.reqPregs w else none) = some p)

namespace CoreIssue

variable (hp : IssueUop c → Bool) (s : CoreIssue c N) (i : CoreIssueInput c W)

def coreInput : CoreInput c := { i.core with disInstCanProceed := s.issue.disInstCanProceed }

def disUops (w : Bank c) : IssueUop c where
  toRobUop := s.core.disUops (s.coreInput i) w
  uopc := (i.decs w).uopc
  inst := (i.decs w).inst
  fuCode := (i.decs w).fuCode
  syscall := (i.decs w).syscall

def issueInput : IssueInput c c.decodeWidth W where
  disMask := s.core.disMask (s.coreInput i)
  disUops := s.disUops i
  fuTypes := i.fuTypes
  brinfo := s.core.brinfo
  flushPipeline := s.core.rob.flushPipeline
  wakeups := i.core.wbPdsts

/-- One cycle. -/
def next : CoreIssue c N := ⟨s.core.next (s.coreInput i), s.issue.next hp (s.issueInput i)⟩

structure IsReset : Prop where
  core : s.core.IsReset
  issue : s.issue.IsReset

/-- The history sees one cycle. -/
def logNext (h : WakeLog c) : WakeLog c where
  now := h.now + 1
  allocated p := if s.core.handsOut (s.coreInput i) p then some h.now else h.allocated p
  woken p := if p ∈ i.core.wbPdsts then some h.now else h.woken p

end CoreIssue

/-- No unit answers for a micro-op it was not given: for one that waits, or is just dispatched. -/
structure CoreIssueInput.Ok (s : CoreIssue c N) (i : CoreIssueInput c W) : Prop where
  core : (s.coreInput i).Ok s.core
  waiting : ∀ k, (s.issue.slots k).slotValid = true →
    (s.core.robInput (s.coreInput i)).clearsBsy (robSlot (s.issue.slots k).slotUop.robIdx) = false
  new : ∀ u ∈ s.core.newUops (s.coreInput i),
    (s.core.robInput (s.coreInput i)).clearsBsy (robSlot u.robIdx) = false

/-- The runs of the core with its issue unit, and the history. -/
def CoreIssue.machine (hp : IssueUop c → Bool) (N W : ℕ) :
    Machine (CoreIssue c N × WakeLog c) (CoreIssueInput c W) :=
  ((Machine.clocked IsReset (next hp)).observe ⟨0, fun _ => none, fun _ => none⟩ logNext).restrict
    fun s i => i.Ok s.1

/-! ### The busy table -/

namespace Core

variable {s : Core c} {i : CoreInput c} {p : PReg c}

theorem handsOut_eq_true : s.handsOut i p = true ↔ ∃ w, s.disMask i w = true ∧
    (s.disUops i w).needsPreg = true ∧ (s.disUops i w).pdst = p := by
  rw [handsOut, orR_eq_true]
  refine exists_congr fun w => ?_
  rw [decide_eq_true_eq, writes_renInput, ← and_assoc, ← Bool.and_eq_true]
  constructor
  · intro h
    obtain ⟨hup, heq⟩ := Option.ite_none_right_eq_some.mp h
    have hpdst := RenameStage.pdst_of_writes ((writes_renInput w).trans hup)
    exact ⟨hup, Option.some.inj (hpdst.symm.trans heq)⟩
  · rintro ⟨hup, rfl⟩
    rw [if_pos hup]
    exact RenameStage.pdst_of_writes ((writes_renInput w).trans hup)

theorem free_of_handsOut (h : s.handsOut i p = true) :
    p ≠ 0 ∧ s.ren.freeList.freeList p = true := by
  obtain ⟨w, hw, hneeds, rfl⟩ := handsOut_eq_true.mp h
  exact free_of_newUops (mem_newUops.mpr ⟨w, hw, rfl⟩) hneeds

theorem handsOut_of_not_free (h : p ≠ 0 → s.ren.freeList.freeList p = false) :
    s.handsOut i p = false := by
  rw [← Bool.not_eq_true]
  intro hout
  obtain ⟨hne, hfree⟩ := free_of_handsOut hout
  rw [h hne] at hfree
  cases hfree

theorem tableBsy_next : (s.next i).ren.tableBsy p = false ↔
    s.handsOut i p = false ∧ (p ∈ i.wbPdsts ∨ s.ren.tableBsy p = false) := by
  show busyTableNext s.ren.tableBsy i.wbPdsts _ p = false ↔ _
  rw [busyTableNext]
  show (if p ≠ 0 ∧ s.handsOut i p = true then _ else _) = false ↔ _
  cases hout : s.handsOut i p with
  | true =>
    rw [if_pos ⟨(free_of_handsOut hout).1, rfl⟩]
    simp
  | false =>
    rw [if_neg fun h => Bool.false_ne_true h.2]
    by_cases hwb : p ∈ i.wbPdsts <;> simp [hwb]

/-- **What a new micro-op is told about an operand** is what the busy table will say. -/
theorem prsBusy_eq_false (hs : s.TablesOk) {w : Bank c} {o : Operand}
    (hfix : (s.disUops i w).lrsRtype o = .fix) : (s.disUops i w).prsBusy o = false ↔
      s.handsOut i ((s.disUops i w).pop o) = false ∧
        ((s.disUops i w).pop o ∈ i.wbPdsts ∨ s.ren.tableBsy ((s.disUops i w).pop o) = false) := by
  rw [pop_disUops, prsBusy_disUops, hfix, RenameStage.pop, if_pos rfl, RenameStage.prsBusy,
    decide_eq_true rfl, Bool.true_and]
  cases hby : s.ren.bypass (s.renInput i) w ((s.disUops i w).lrs o) with
  | some x =>
    -- another slot of the bundle produces it
    have hup := priorityEncoder_some (RenameStage.bypass_eq w _ ▸ hby)
    rw [Bool.and_eq_true, RenameStage.wens_eq_true, writes_renInput, Bool.and_eq_true] at hup
    have hout : s.handsOut i (s.ren.pdst (s.renInput i) x) = true :=
      handsOut_eq_true.mpr ⟨x, hup.2.1.1, hup.2.1.2, rfl⟩
    simp [hout]
  | none =>
    have hpop : (if (s.disUops i w).lrs o ≠ 0 then
        s.ren.mapTable.element ((s.disUops i w).lrs o) else ((s.disUops i w).lrs o).toPReg) =
          s.ren.mapTable.element ((s.disUops i w).lrs o) := by
      by_cases hr : (s.disUops i w).lrs o = 0
      · rw [hr, hs.element_zero]
        rfl
      · exact if_pos hr
    have hkept : s.handsOut i (s.ren.mapTable.element ((s.disUops i w).lrs o)) = false :=
      handsOut_of_not_free fun hne => hs.freeList_of_mapped hne rfl
    dsimp only
    rw [hpop, hkept, Option.isSome_none, Bool.or_false, busyTableRead]
    by_cases hwb : s.ren.mapTable.element ((s.disUops i w).lrs o) ∈ i.wbPdsts <;>
      simp [renInput, renInputOf, hwb]

theorem prsBusy_of_x {w : Bank c} {o : Operand} (hx : (s.disUops i w).lrsRtype o ≠ .fix) :
    (s.disUops i w).prsBusy o = false := by
  rw [prsBusy_disUops, RenameStage.prsBusy, decide_eq_false hx, Bool.false_and]

end Core

namespace CoreIssue

variable {hp : IssueUop c → Bool} {s : CoreIssue c N} {i : CoreIssueInput c W} {h : WakeLog c}

/-- The history does not run ahead. -/
structure Past (h : WakeLog c) : Prop where
  allocated : ∀ p t, h.allocated p = some t → t < h.now
  woken : ∀ p t, h.woken p = some t → t < h.now

theorem logNext_allocated (p : PReg c) : (logNext s i h).allocated p =
    if s.core.handsOut (s.coreInput i) p = true then some h.now else h.allocated p := rfl

theorem logNext_woken (p : PReg c) : (logNext s i h).woken p =
    if p ∈ i.core.wbPdsts then some h.now else h.woken p := rfl

theorem Past.next (hpast : Past h) : Past (logNext s i h) := by
  constructor
  · intro p t ht
    show t < h.now + 1
    rw [logNext_allocated] at ht
    split at ht
    · cases ht
      exact Nat.lt_succ_self h.now
    · exact Nat.lt_succ_of_lt (hpast.allocated p t ht)
  · intro p t ht
    show t < h.now + 1
    rw [logNext_woken] at ht
    split at ht
    · cases ht
      exact Nat.lt_succ_self h.now
    · exact Nat.lt_succ_of_lt (hpast.woken p t ht)

/-- **What one cycle does to the history of a register.** -/
theorem wokenSince_next (hpast : Past h) {p : PReg c} : (logNext s i h).WokenSince p ↔
    s.core.handsOut (s.coreInput i) p = false ∧ (p ∈ i.core.wbPdsts ∨ h.WokenSince p) := by
  rw [WakeLog.WokenSince, logNext_allocated, logNext_woken]
  cases hout : s.core.handsOut (s.coreInput i) p with
  | true =>
    refine iff_of_false ?_ ?_
    · intro hsince
      obtain ⟨t', ht', hlt⟩ := hsince h.now (if_pos rfl)
      split at ht'
      · cases ht'
        exact lt_irrefl _ hlt
      · exact lt_asymm hlt (hpast.woken p t' ht')
    · rintro ⟨hno, -⟩
      cases hno
  | false =>
    simp only [Bool.false_eq_true, if_false, true_and]
    by_cases hwb : p ∈ i.core.wbPdsts
    · refine iff_of_true ?_ (.inl hwb)
      intro t ht
      exact ⟨h.now, if_pos hwb, hpast.allocated p t ht⟩
    · rw [if_neg hwb, or_iff_right hwb]
      rfl

/-! ### What waits is in the buffer -/

theorem dispatches : s.issue.Dispatches (s.issueInput i) := by
  intro w hw
  have hgoes := Core.goes_of_disMask hw
  have hproceed : s.issue.disInstCanProceed w = true := by
    have hren : s.core.disMask (s.coreInput i) w = true := hw
    rw [Core.disMask, RenameStage.renMask, Bool.and_eq_true, Bool.and_eq_true,
      RenameStage.instCanProceed, Bool.and_eq_true] at hren
    exact hren.1.2.2
  exact ⟨hproceed, Bool.or_eq_false_iff.mpr ⟨hgoes.noFlush, hgoes.noMispredict⟩⟩

/-- What is written to a slot is half of a micro-op that is dispatched. -/
theorem partOf_of_writes {k : Fin N} {w : Bank c} {b : Bool}
    (hw : s.issue.writes (s.issueInput i) k w b = true) :
    (i.core.decInsts w).exception = false ∧ ((s.disUops i w).half b).PartOf
      (s.core.disUops (s.coreInput i) w) := by
  obtain ⟨-, hneeds, -⟩ := writes_eq_true.mp hw
  have hexc : (i.core.decInsts w).exception = false := by
    cases b
    · have hfirst : (!(i.core.decInsts w).exception && _ && _ && _ && _) = true := hneeds
      simp only [Bool.and_eq_true, Bool.not_eq_true'] at hfirst
      exact hfirst.1.1.1.1
    · have hsecond : (_ && !(i.core.decInsts w).exception) = true := hneeds
      exact Bool.not_eq_true' _ ▸ (Bool.and_eq_true_iff.mp hsecond).2
  refine ⟨hexc, IssueUop.half_partOf ?_ b⟩
  intro hsta o
  have hfix := (i.decs w).fix_of_sta hexc hsta o
  cases o <;> exact hfix

/-- While the core rolls back, nothing waits. -/
def Drained (s : CoreIssue c N) : Prop :=
  s.core.rob.state = .rollback → s.core.rob.flushPipeline = false →
    ∀ k, (s.issue.slots k).slotValid = false

/-- What waits for a register is in the reorder buffer, and busy there. -/
def Backed (s : CoreIssue c N) : Prop :=
  ∀ k o, (s.issue.slots k).slotValid = true → (s.issue.slots k).slotUop.lrsRtype o = .fix →
    ∃ x, (s.core.rob.entry x).val = true ∧ (s.core.rob.entry x).bsy = true ∧
      (s.issue.slots k).slotUop.PartOf (s.core.rob.entry x).uop

theorem Drained.next (hd : s.Drained) : (s.next hp i).Drained := by
  intro hroll hflush k
  rw [← Bool.not_eq_true]
  intro hvalid
  have hstate : s.core.rob.state = .rollback := by
    refine (Rob.nextState_rollback hroll).resolve_right ?_
    intro hthrow
    have hval : s.core.rob.flushVal = false := hflush
    rw [Rob.flushVal, hthrow] at hval
    cases hval
  rcases of_valid_next hvalid with ⟨w, b, hw⟩ | ⟨-, hold, hkilled, -⟩
  · have hgoes := Core.goes_of_disMask (writes_eq_true.mp hw).1
    rw [(Rob.ready_eq_true.mp hgoes.ready).1] at hstate
    cases hstate
  · rw [hd hstate (Bool.or_eq_false_iff.mp hkilled).1 k] at hold
    cases hold

/-- **What waits for a register stays in the buffer.** -/
theorem Backed.next (hb : s.Backed) (hd : s.Drained) (ho : s.core.Ordered) (hok : i.Ok s) :
    (s.next hp i).Backed := by
  intro k o hvalid hfix
  have hfix' : ((s.issue.next hp (s.issueInput i)).slots k).slotUop.lrsRtype o = .fix := hfix
  show ∃ x, _ ∧ _ ∧ ((s.issue.next hp (s.issueInput i)).slots k).slotUop.PartOf _
  rcases of_valid_next hvalid with ⟨w, b, hw⟩ | ⟨hwriter, hold, hkilled, hissue⟩
  · -- it is dispatched in this cycle, to both
    have hdis := (writes_eq_true.mp hw).1
    obtain ⟨hexc, hpart⟩ := partOf_of_writes hw
    rw [(next_of_writes dispatches hw).2] at hfix' ⊢
    have hfill : s.core.rob.fills (s.core.robInput (s.coreInput i)) (s.core.rob.tail, w) = true :=
      Rob.fills_eq_true.mpr ⟨rfl, hdis⟩
    have hclear := hok.new _ (Core.mem_newUops.mpr ⟨w, hdis, rfl⟩)
    have haddr : robSlot (s.core.disUops (s.coreInput i) w).robIdx = (s.core.rob.tail, w) :=
      robSlot_idx (s.core.rob.tail, w)
    rw [haddr] at hclear
    refine ⟨(s.core.rob.tail, w), Rob.val_next_of_fills ho.shaped ho.accepts hfill, ?_, ?_⟩
    · refine (Rob.bsy_next_of_fills hfill hclear).trans ?_
      have hdec : (i.core.decInsts w).lrsRtype o = .fix := by
        have hrtype := hpart.rtype o hfix'
        cases o <;> exact hrtype
      obtain ⟨hsret, hmem, hfencei⟩ := (i.decs w).busy_of_fix hexc o hdec
      show (!(i.core.decInsts w).isSret && !(i.core.decInsts w).isMemSpecial &&
        !(i.core.decInsts w).isFencei) = true
      rw [hsret, hmem, hfencei]
      rfl
    · have huop : ((s.next hp i).core.rob.entry (s.core.rob.tail, w)).uop =
          s.core.disUops (s.coreInput i) w := Rob.uop_next_of_fills ho.shaped ho.accepts hfill
      rw [huop]
      exact hpart
  · -- it stays, in both
    have huop := uop_of_not_writes hwriter hkilled hissue
    rw [huop] at hfix' ⊢
    have hfix : (s.issue.slots k).slotUop.lrsRtype o = .fix := by cases o <;> exact hfix'
    obtain ⟨x, hx, hbsy, hpart⟩ := hb k o hold hfix
    obtain ⟨hflush, hbranch⟩ := Bool.or_eq_false_iff.mp hkilled
    have hclear := hok.waiting k hold
    rw [hpart.robIdx, ho.shaped.addressed x hx] at hclear
    have hkeep : s.core.rob.removes (s.core.robInput (s.coreInput i)) x = false := by
      refine Rob.removes_eq_false.mpr ⟨?_, ?_, ?_⟩
      · rw [← Bool.not_eq_true]
        intro hcom
        obtain ⟨hrow, hcom⟩ := Rob.commits_eq_true.mp hcom
        obtain ⟨_, hval, hall⟩ := Rob.willCommit_eq_true.mp hcom
        have hfree := (hall x.2 le_rfl hval).1
        rw [← hrow, hbsy] at hfree
        cases hfree
      · rw [hpart.brMask] at hbranch
        rw [Rob.brKills, hx, Bool.true_and]
        exact hbranch
      · rw [← Bool.not_eq_true, Rob.rollsBack_eq_true]
        rintro ⟨hroll, -⟩
        rw [hd hroll hflush k] at hold
        cases hold
    refine ⟨x, Rob.val_next_eq_true.mpr ⟨hkeep, .inr hx⟩, ?_, ?_⟩
    · exact (Rob.bsy_next_of_stays ho.shaped ho.accepts hx hclear).trans hbsy
    · have hnext : ((s.next hp i).core.rob.entry x).uop =
          (s.core.rob.entry x).uop.resolve s.core.brinfo :=
        Rob.uop_next_of_stays ho.shaped ho.accepts hx hkeep
      rw [hnext]
      refine ⟨hpart.robIdx, ?_, ?_, ?_⟩
      · show getNewBrMask _ _ = getNewBrMask _ _
        rw [hpart.brMask]
        rfl
      · intro o
        have hpop := hpart.pop o
        cases o <;> exact hpop
      · intro o hfix
        have hrtype := hpart.rtype o
        cases o <;> exact hrtype hfix

theorem Backed.handsOut (hb : s.Backed) (ho : s.core.Ordered) (ht : s.core.TablesOk)
    (hsrc : s.core.SourcesOk) {k : Fin N} {o : Operand}
    (hvalid : (s.issue.slots k).slotValid = true)
    (hfix : (s.issue.slots k).slotUop.lrsRtype o = .fix) :
    s.core.handsOut (s.coreInput i) ((s.issue.slots k).slotUop.pop o) = false := by
  obtain ⟨x, hx, -, hpart⟩ := hb k o hvalid hfix
  have hmem : (s.core.rob.entry x).uop ∈ s.core.rob.window := Rob.mem_window.mpr ⟨x, hx, rfl⟩
  rw [hpart.pop o, hsrc _ hmem o (hpart.rtype o hfix)]
  exact Core.handsOut_of_not_free fun hne => ht.freeList_mappedBefore ho hmem _ hne

/-! ### Wakeups -/

/-- The busy table is clear exactly for what was woken up. -/
def TableExact (s : CoreIssue c N) (h : WakeLog c) : Prop :=
  ∀ p, s.core.ren.tableBsy p = false ↔ h.WokenSince p

/-- An operand that waits is ready exactly if it was woken up, or is no register. -/
def SlotsExact (s : CoreIssue c N) (h : WakeLog c) : Prop :=
  ∀ k o, (s.issue.slots k).slotValid = true →
    ((s.issue.slots k).slotUop.lrsRtype o = .fix →
      ((s.issue.slots k).ready o = true ↔ h.WokenSince ((s.issue.slots k).slotUop.pop o))) ∧
    ((s.issue.slots k).slotUop.lrsRtype o ≠ .fix → (s.issue.slots k).ready o = true)

theorem TableExact.next (ht : s.TableExact h) (hpast : Past h) :
    (s.next hp i).TableExact (logNext s i h) := by
  intro p
  rw [wokenSince_next hpast, ← ht p]
  exact Core.tableBsy_next

theorem SlotsExact.next (hs : s.SlotsExact h) (ht : s.TableExact h) (hpast : Past h)
    (hb : s.Backed) (ho : s.core.Ordered) (htables : s.core.TablesOk) (hsrc : s.core.SourcesOk) :
    (s.next hp i).SlotsExact (logNext s i h) := by
  intro k o hvalid
  rcases of_valid_next hvalid with ⟨w, b, hw⟩ | ⟨hwriter, hold, hkilled, hissue⟩
  · obtain ⟨-, hpart⟩ := partOf_of_writes hw
    have huop : ((s.next hp i).issue.slots k).slotUop = (s.disUops i w).half b :=
      (next_of_writes dispatches hw).2
    rw [huop]
    constructor
    · intro hfix
      have hready : ((s.next hp i).issue.slots k).ready o = !(s.disUops i w).prsBusy o :=
        ready_of_writes hw hfix
      rw [hready, hpart.pop o, Bool.not_eq_true', wokenSince_next hpast, ← ht]
      exact Core.prsBusy_eq_false htables (hpart.rtype o hfix)
    · intro hx
      exact ready_of_writes_x hw hx fun hx => Core.prsBusy_of_x hx
  · have huop : ((s.next hp i).issue.slots k).slotUop = { (s.issue.slots k).slotUop with
        brMask := getNewBrMask s.core.brinfo (s.issue.slots k).slotUop.brMask } :=
      uop_of_not_writes hwriter hkilled hissue
    have hpop : ((s.next hp i).issue.slots k).slotUop.pop o =
        (s.issue.slots k).slotUop.pop o := by
      rw [huop]
      cases o <;> rfl
    have hrtype : ((s.next hp i).issue.slots k).slotUop.lrsRtype o =
        (s.issue.slots k).slotUop.lrsRtype o := by
      rw [huop]
      cases o <;> rfl
    have hready : ((s.next hp i).issue.slots k).ready o = ((s.issue.slots k).ready o ||
        decide ((s.issue.slots k).slotUop.pop o ∈ i.core.wbPdsts)) :=
      ready_of_not_writes hwriter o
    obtain ⟨hsince, hidle⟩ := hs k o hold
    rw [hrtype, hpop, hready, Bool.or_eq_true, decide_eq_true_eq]
    constructor
    · intro hfix
      rw [wokenSince_next hpast, hb.handsOut ho htables hsrc hold hfix, eq_self_iff_true, true_and,
        hsince hfix, or_comm]
    · intro hx
      exact .inl (hidle hx)

/-- The invariant of the core with its issue unit. -/
structure WakeOk (s : CoreIssue c N) (h : WakeLog c) : Prop where
  past : Past h
  drained : s.Drained
  backed : s.Backed
  table : s.TableExact h
  slots : s.SlotsExact h

/-- What the core does with its issue unit it can do on its own. -/
theorem reachable_core (hs : (machine hp N W).Reachable (s, h)) :
    (Core.machine c).Reachable s.core := by
  refine Machine.invariant (I := fun x => (Core.machine c).Reachable x.1.core) ?_ ?_ (s, h) hs
  · rintro ⟨s, h⟩ ⟨hreset, -⟩
    exact .init hreset.core
  · rintro ⟨s, h⟩ i ⟨s', h'⟩ - hi ⟨hok, rfl, -⟩
    exact .step hi ⟨hok.core, rfl⟩

theorem reachable_wakeOk (hs : (machine hp N W).Reachable (s, h)) : s.WakeOk h := by
  refine Machine.invariant (I := fun x => x.1.WakeOk x.2) ?_ ?_ (s, h) hs
  · rintro ⟨s, h⟩ ⟨hreset, rfl⟩
    have hempty (k : Fin N) (hvalid : (s.issue.slots k).slotValid = true) : False := by
      rw [hreset.issue k] at hvalid
      cases hvalid
    refine ⟨⟨?_, ?_⟩, fun _ _ => hreset.issue, ?_, ?_, ?_⟩
    · intro p t ht
      cases ht
    · intro p t ht
      cases ht
    · intro k o hvalid
      exact (hempty k hvalid).elim
    · intro p
      refine iff_of_true (hreset.core.ren.tableBsy p) ?_
      intro t ht
      cases ht
    · intro k o hvalid
      exact (hempty k hvalid).elim
  · rintro ⟨s, h⟩ i ⟨s', h'⟩ hs hi ⟨hok, rfl, rfl⟩
    have hcore := reachable_core hs
    have ho := Core.reachable_ordered hcore
    have htables := Core.reachable_tablesOk hcore
    have hsrc := Core.reachable_sourcesOk hcore
    exact ⟨hi.past.next, hi.drained.next, hi.backed.next hi.drained ho hok,
      hi.table.next hi.past, hi.slots.next hi.table hi.past hi.backed ho htables hsrc⟩

/-- **No lost and no early wakeup.** In every reachable state of the core with its issue unit a
register is marked as available exactly if it was woken up since it was last handed out, and so is
an operand of a micro-op that waits in a slot. An operand that is no register is always ready. -/
theorem wakeup_exact (c : BOOMConf) (N W : ℕ) (hp : IssueUop c → Bool) :
    ∀ s h, (machine hp N W).Reachable (s, h) →
      (∀ p, s.core.ren.tableBsy p = false ↔ h.WokenSince p) ∧
      ∀ k, (s.issue.slots k).slotValid = true →
        ((s.issue.slots k).slotUop.lrs1Rtype = .fix →
          ((s.issue.slots k).slotP1 = true ↔ h.WokenSince (s.issue.slots k).slotUop.pop1)) ∧
        ((s.issue.slots k).slotUop.lrs2Rtype = .fix →
          ((s.issue.slots k).slotP2 = true ↔ h.WokenSince (s.issue.slots k).slotUop.pop2)) ∧
        ((s.issue.slots k).slotUop.lrs1Rtype ≠ .fix → (s.issue.slots k).slotP1 = true) ∧
        ((s.issue.slots k).slotUop.lrs2Rtype ≠ .fix → (s.issue.slots k).slotP2 = true) := by
  intro s h hs
  have hok := reachable_wakeOk hs
  refine ⟨hok.table, ?_⟩
  intro k hvalid
  obtain ⟨hfirst, hfirstx⟩ := hok.slots k .first hvalid
  obtain ⟨hsecond, hsecondx⟩ := hok.slots k .second hvalid
  exact ⟨hfirst, hsecond, hfirstx, hsecondx⟩

/-- The core and its issue unit after reset. -/
def reset (c : BOOMConf) (N : ℕ) : CoreIssue c N :=
  ⟨Core.reset c, ⟨fun _ => ⟨false, false, false, ⟨Core.nullUop c, .other, bubble, 0, false⟩⟩⟩⟩

/-- `x5 := f(x0)` and `x6 := f(x5)`. No unit takes them. -/
def chain (valid : Bool) (wbPdsts : List (PReg .tiny)) : CoreIssueInput .tiny 1 where
  core := .feed valid (fun w => .addi false (if w = 0 then 5 else 6) (if w = 0 then 0 else 5))
    wbPdsts
  decs _ :=
    { uopc := .other
      inst := 0
      fuCode := 1
      syscall := false
      fix_of_sta := fun _ h => absurd h (by decide)
      busy_of_fix := fun _ _ _ => ⟨rfl, rfl, rfl⟩ }
  fuTypes _ := 0

/-- The bundle is dispatched one cycle after reset, and a cycle later `P1` is woken up. -/
def afterChain (n : ℕ) : CoreIssue .tiny 4 × WakeLog .tiny :=
  Machine.cycles (next fun _ => false) logNext
    ([chain false [], chain true [], chain false [1]].take n)
    (reset .tiny 4, ⟨0, fun _ => none, fun _ => none⟩)

theorem reachable_afterChain (n : ℕ) :
    (machine (fun _ => false) 4 1).Reachable (afterChain n) := by
  have hstart : (machine (fun _ => false) 4 1).Reachable
      (reset .tiny 4, ⟨0, fun _ => none, fun _ => none⟩) :=
    .init ⟨⟨Core.isReset_reset .tiny, fun _ => rfl⟩, rfl⟩
  refine Machine.reachable_restrict_cycles hstart _ (.of_forall (fun i hi s => ?_) _)
  obtain ⟨valid, wbPdsts, rfl⟩ : ∃ valid wbPdsts, i = chain valid wbPdsts := by
    have hmem := List.mem_of_mem_take hi
    simp only [List.mem_cons, List.not_mem_nil, or_false] at hmem
    rcases hmem with rfl | rfl | rfl <;> exact ⟨_, _, rfl⟩
  exact ⟨fun _ _ _ => rfl, fun _ _ => rfl, fun _ _ => rfl⟩

/-- The second one waits for `P1` after the dispatch, and does not after the wakeup. -/
theorem wakeup_exact_chain :
    (((afterChain 2).1.issue.slots 2).slotP1 = false ∧ ¬(afterChain 2).2.WokenSince 1) ∧
      ((afterChain 3).1.issue.slots 2).slotP1 = true ∧ (afterChain 3).2.WokenSince 1 := by
  have hready (n : ℕ) (hvalid : ((afterChain n).1.issue.slots 2).slotValid = true)
      (hfix : ((afterChain n).1.issue.slots 2).slotUop.lrs1Rtype = .fix)
      (hpop : ((afterChain n).1.issue.slots 2).slotUop.pop1 = 1) :
      ((afterChain n).1.issue.slots 2).slotP1 = true ↔ (afterChain n).2.WokenSince 1 := by
    have hexact := wakeup_exact .tiny 4 1 (fun _ => false) _ _ (reachable_afterChain n)
    exact hpop ▸ (hexact.2 2 hvalid).1 hfix
  have hno : ((afterChain 2).1.issue.slots 2).slotP1 = false := by decide +kernel
  have hyes : ((afterChain 3).1.issue.slots 2).slotP1 = true := by decide +kernel
  have hbefore := hready 2 (by decide +kernel) (by decide +kernel) (by decide +kernel)
  have hafter := hready 3 (by decide +kernel) (by decide +kernel) (by decide +kernel)
  exact ⟨⟨hno, fun h => absurd (hbefore.mpr h) (ne_true_of_eq_false hno)⟩, hyes, hafter.mp hyes⟩

end CoreIssue

end RiscvSoc
