import RiscvSoc.Boom.CoreFreeList

/-!
# The registers a micro-op reads

A micro-op names the physical registers its logical ones were mapped to in front of it. As long as
it is in the window such a register is not free: it is mapped, or a micro-op of the window replaced
it, and what was replaced is given back only when the one that replaced it commits.
-/

namespace RiscvSoc

variable {c : BOOMConf}

/-- `lrs1` and its fields, or `lrs2` and its fields. -/
inductive Operand
  | first
  | second
  deriving DecidableEq, Repr

namespace DecUop

def lrs (u : DecUop c) : Operand → LReg
  | .first => u.lrs1
  | .second => u.lrs2

def lrsRtype (u : DecUop c) : Operand → RType
  | .first => u.lrs1Rtype
  | .second => u.lrs2Rtype

end DecUop

namespace RenUop

def pop (u : RenUop c) : Operand → PReg c
  | .first => u.pop1
  | .second => u.pop2

def prsBusy (u : RenUop c) : Operand → Bool
  | .first => u.prs1Busy
  | .second => u.prs2Busy

end RenUop

namespace Core

variable {s : Core c} {i : CoreInput c}

/-- What register `r` was mapped to in front of a micro-op. -/
def mappedBefore (s : Core c) (u : RobUop c) (r : LReg) : PReg c :=
  if u.needsPreg = true ∧ u.ldst = r then u.stalePdst else s.renamed u.seq r

/-- Each micro-op of the window names the registers its operands were mapped to. -/
def SourcesOk (s : Core c) : Prop :=
  ∀ u ∈ s.rob.window, ∀ o, u.lrsRtype o = .fix → u.pop o = s.mappedBefore u (u.lrs o)

/-! ### A new micro-op -/

variable (w : Bank c)

/-- With two slots a register is written at most once before the last one. -/
theorem oneWriter (r : LReg) : s.ren.OneWriter (s.renInput i) w r := by
  intro x y hx hy _ _
  have hwidth := w.isLt
  have hx := Fin.lt_def.mp hx
  have hy := Fin.lt_def.mp hy
  ext
  rcases c.decodeWidth_eq with h | h <;> omega

theorem pop_disUops (o : Operand) : (s.disUops i w).pop o =
    s.ren.pop (s.renInput i) w ((s.disUops i w).lrsRtype o) ((s.disUops i w).lrs o) := by
  cases o <;> rfl

theorem prsBusy_disUops (o : Operand) : (s.disUops i w).prsBusy o =
    s.ren.prsBusy (s.renInput i) w ((s.disUops i w).lrsRtype o) ((s.disUops i w).lrs o) := by
  cases o <;> rfl

theorem renamed_succ (hw : s.disMask i w = true) (r : LReg) :
    s.tableAfter i (w + 1) r =
      if (s.disUops i w).needsPreg = true ∧ (s.disUops i w).ldst = r then (s.disUops i w).pdst
      else s.tableAfter i w r := by
  rw [tableAfter_eq w.isLt, tableAfter_eq w.isLt.le, newUopsUpTo_succ, if_pos hw, renameLog_append,
    replay_append]
  by_cases hneeds : (s.disUops i w).needsPreg = true
  · have hlog : renameLog [s.disUops i w] = [(s.disUops i w).overwrite] := by
      simp [renameLog, hneeds]
    rw [hlog, replay_cons, replay_nil, Function.update_apply]
    by_cases hr : (s.disUops i w).ldst = r
    · exact (if_pos hr.symm).trans (if_pos ⟨hneeds, hr⟩).symm
    · exact (if_neg (Ne.symm hr)).trans (if_neg fun h => hr h.2).symm
  · have hlog : renameLog [s.disUops i w] = [] := by simp [renameLog, hneeds]
    rw [hlog, replay_nil, if_neg fun h => hneeds h.1]

/-- In front of a new micro-op the map table is what the slots before it made of it. -/
theorem mappedBefore_disUops {w : Bank c} (hw : s.disMask i w = true) (r : LReg) :
    (s.next i).mappedBefore (s.disUops i w) r = s.tableAfter i w r := by
  rw [mappedBefore, TablesOk.renamed_next_of_new hw, renamed_succ w hw]
  split
  case isTrue h => rw [stalePdst_disUops h.1, h.2]
  case isFalse => rfl

namespace TablesOk

variable (hs : s.TablesOk)
include hs

/-- Register `0` is mapped to `P0` throughout a bundle. -/
theorem tableAfter_zero (w : Bank c) : s.tableAfter i w 0 = 0 := by
  rw [tableAfter_eq w.isLt.le, replay_renameLog_zero, hs.element_zero]

theorem pop_eq_mappedBefore {w : Bank c} (hw : s.disMask i w = true) {o : Operand}
    (hfix : (s.disUops i w).lrsRtype o = .fix) :
    (s.disUops i w).pop o = (s.next i).mappedBefore (s.disUops i w) ((s.disUops i w).lrs o) := by
  rw [pop_disUops, mappedBefore_disUops hw, hfix,
    (RenameStage.pop_eq_iff w .fix _).mpr fun _ => oneWriter w _, RenameTables.operand]
  by_cases hr : (s.disUops i w).lrs o = 0
  · rw [hr, hs.tableAfter_zero]
    exact if_neg fun h => h.2 rfl
  · exact if_pos ⟨rfl, hr⟩

/-! ### Runs -/

theorem sourcesOk_next (ho : s.Ordered) (hsrc : s.SourcesOk) : (s.next i).SourcesOk := by
  intro u' hu' o hfix
  rcases ho.mem_window_next.mp hu' with ⟨u, hu, -, rfl⟩ | hnew
  · have hsame : ∀ r, (s.next i).mappedBefore (u.resolve s.brinfo) r = s.mappedBefore u r := by
      intro r
      rw [mappedBefore, mappedBefore, RobUop.resolve_seq, renamed_next_of_lt (ho.lt_count u hu)]
      rfl
    rw [hsame]
    have hpop : (u.resolve s.brinfo).pop o = u.pop o := by cases o <;> rfl
    have hlrs : (u.resolve s.brinfo).lrs o = u.lrs o := by cases o <;> rfl
    have hrtype : (u.resolve s.brinfo).lrsRtype o = u.lrsRtype o := by cases o <;> rfl
    rw [hpop, hlrs]
    exact hsrc u hu o (hrtype ▸ hfix)
  · obtain ⟨w, hw, rfl⟩ := mem_newUops.mp hnew
    exact hs.pop_eq_mappedBefore hw hfix

/-! ### What is read is not free -/

/-- What a register was mapped to at some micro-op is mapped still, or was replaced behind it. -/
theorem renamed_mapped_or_stale (ho : s.Ordered) {u : RobUop c} (hu : u ∈ s.rob.window) (r : LReg) :
    s.ren.mapTable.element r = s.renamed u.seq r ∨
      ∃ v ∈ s.rob.window, v.needsPreg = true ∧ v.stalePdst = s.renamed u.seq r := by
  have hwin : s.rob.window.filter (fun v => decide (v.seq ≤ u.seq)) ++
      s.rob.window.filter (fun v => !decide (v.seq ≤ u.seq)) = s.rob.window := by
    refine filter_append_filter_neg ?_
    refine ho.sorted.imp ?_
    intro v w hlt hle
    exact decide_eq_true (hlt.le.trans (of_decide_eq_true hle))
  have hlog : renameLog s.timeline =
      renameLog (s.committed ++ s.rob.window.filter fun v => decide (v.seq ≤ u.seq)) ++
        renameLog (s.rob.window.filter fun v => !decide (v.seq ≤ u.seq)) := by
    rw [timeline, ← renameLog_append, List.append_assoc, hwin]
  have hcons := hs.consistent
  have helement := hs.element
  rw [hlog, consistent_append, ← hs.renamed u hu] at hcons
  rw [hlog, replay_append, ← hs.renamed u hu] at helement
  have hundo := undo_eq hcons.2 r
  rw [← helement] at hundo
  rcases hfind : (renameLog (s.rob.window.filter fun v => !decide (v.seq ≤ u.seq))).find?
      (fun e => decide (e.key = r)) with _ | e
  · rw [hfind] at hundo
    exact .inl hundo
  · rw [hfind] at hundo
    obtain ⟨v, hv, hneeds, heq⟩ := mem_map_old.mp
      (List.mem_map.mpr ⟨e, List.mem_of_find?_eq_some hfind, rfl⟩)
    exact .inr ⟨v, (List.mem_filter.mp hv).1, hneeds, heq.trans hundo⟩

theorem freeList_of_mapped {p : PReg c} (hp : p ≠ 0) {r : LReg}
    (h : s.ren.mapTable.element r = p) : s.ren.freeList.freeList p = false := by
  cases hs.inOnePlace hp with
  | free _ hmap _ => exact absurd h (hmap r)
  | mapped _ hfree _ => exact hfree
  | stale _ hfree _ => exact hfree

theorem freeList_of_stale {p : PReg c} (hp : p ≠ 0) {v : RobUop c} (hv : v ∈ s.rob.window)
    (hneeds : v.needsPreg = true) (h : v.stalePdst = p) : s.ren.freeList.freeList p = false := by
  cases hs.inOnePlace hp with
  | free _ _ hstale =>
    obtain ⟨x, hx, rfl⟩ := Rob.mem_window.mp hv
    exact absurd ⟨hx, (needsPreg_eq_ldstVal _).symm.trans hneeds, h⟩ (hstale x)
  | mapped _ hfree _ => exact hfree
  | stale _ hfree _ => exact hfree

/-- **What a micro-op of the window reads is not free.** -/
theorem freeList_mappedBefore (ho : s.Ordered) {u : RobUop c} (hu : u ∈ s.rob.window) (r : LReg)
    (hp : s.mappedBefore u r ≠ 0) : s.ren.freeList.freeList (s.mappedBefore u r) = false := by
  by_cases hwrite : u.needsPreg = true ∧ u.ldst = r
  · rw [mappedBefore, if_pos hwrite] at hp ⊢
    exact hs.freeList_of_stale hp hu hwrite.1 rfl
  · rw [mappedBefore, if_neg hwrite] at hp ⊢
    rcases hs.renamed_mapped_or_stale ho hu r with h | ⟨v, hv, hneeds, h⟩
    · exact hs.freeList_of_mapped hp h
    · exact hs.freeList_of_stale hp hv hneeds h

end TablesOk

/-- **In every reachable state each micro-op names what its registers were mapped to.** -/
theorem reachable_sourcesOk (h : (machine c).Reachable s) : s.SourcesOk := by
  refine Machine.invariant (I := SourcesOk) ?_ ?_ s h
  · intro s hreset u hu
    rw [window_of_isReset hreset.rob] at hu
    cases hu
  · rintro s i _ hs hsrc ⟨-, rfl⟩
    exact (reachable_tablesOk hs).sourcesOk_next (reachable_ordered hs) hsrc

/-- **An operand is kept until it was read.** In every reachable state each micro-op of the window
names what its registers were mapped to, and no such register is free or goes to a new micro-op. -/
theorem operands_kept (c : BOOMConf) :
    (∀ s : Core c, (machine c).Reachable s → s.SourcesOk) ∧
    ∀ (s : Core c) (i : CoreInput c), (machine c).Reachable s → ∀ u ∈ s.rob.window, ∀ o,
      u.lrsRtype o = .fix → u.pop o ≠ 0 → s.ren.freeList.freeList (u.pop o) = false ∧
        ∀ v ∈ s.newUops i, v.ldstVal = true → v.pdst ≠ u.pop o := by
  refine ⟨fun s => reachable_sourcesOk, fun s i h u hu o hfix hne => ?_⟩
  have hsrc := reachable_sourcesOk h u hu o hfix
  have hfree : s.ren.freeList.freeList (u.pop o) = false := by
    rw [hsrc] at hne ⊢
    exact (reachable_tablesOk h).freeList_mappedBefore (reachable_ordered h) hu _ hne
  refine ⟨hfree, fun v hv hval heq => ?_⟩
  have hnew := (free_of_newUops hv ((needsPreg_eq_ldstVal _).trans hval)).2
  rw [heq, hfree] at hnew
  cases hnew

end Core

end RiscvSoc
