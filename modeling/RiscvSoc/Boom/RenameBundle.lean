import RiscvSoc.Boom.Rename

/-!
# Renaming a bundle against renaming its instructions in turn

`RenameStage` renames a bundle of `n` instructions at once and resolves the dependences between them
with priority muxes over the earlier slots. Here the same instructions are renamed one after the
other: each is offered the lowest register left on the free list, whether it needs one or not, reads
the map table and the busy table, and updates both before the next one has its turn. Writebacks of
the cycle come first.

## Where the bundle differs

`MuxCase` takes the first case that holds, and the cases stand in the order of the slots: an operand
is bypassed from the first slot that writes it, where the sequential process reads the last one. A
bundle has `DECODE_WIDTH` slots, as the map table has that many ports. That is one or two, and with
two slots the first writer is the last one.

The busy bit of an operand that is not bypassed is read before the bundle marks its own registers.
That shows only if a register on the free list is still mapped, which no run of the core reaches.
-/

namespace RiscvSoc

variable {c : BOOMConf} {n : ℕ}

/-! ### One instruction -/

/-- What the sequential process keeps. -/
structure RenameTables (c : BOOMConf) where
  element : LReg → PReg c
  free : PReg c → Bool
  busy : PReg c → Bool

/-- The results of renaming one instruction. The stale register is that of its destination. -/
@[ext]
structure RenameResult (c : BOOMConf) where
  pop1 : PReg c
  pop2 : PReg c
  pdst : PReg c
  stalePdst : Option (PReg c)
  prs1Busy : Bool
  prs2Busy : Bool
  deriving DecidableEq

namespace RenameTables

variable (t : RenameTables c) (u : DecUop c)

/-- The register an instruction is offered: the lowest one that is free. -/
def offer : Option (PReg c) := priorityEncoder fun p => decide (p ≠ 0) && t.free p

def operand (rtype : RType) (r : LReg) : PReg c :=
  if rtype = .fix ∧ r ≠ 0 then t.element r else r.toPReg

def operandBusy (rtype : RType) (r : LReg) : Bool := decide (rtype = .fix) && t.busy (t.element r)

def pdst : PReg c := if u.needsPreg then t.offer.getD 0 else u.ldst.toPReg

def rename : RenameResult c where
  pop1 := t.operand u.lrs1Rtype u.lrs1
  pop2 := t.operand u.lrs2Rtype u.lrs2
  pdst := t.pdst u
  stalePdst := if u.ldstVal then some (t.element u.ldst) else none
  prs1Busy := t.operandBusy u.lrs1Rtype u.lrs1
  prs2Busy := t.operandBusy u.lrs2Rtype u.lrs2

/-- The instruction goes ahead, if nothing outside the tables holds it back. -/
def accepts (ok : Bool) : Bool := ok && (decide (u.ldstRtype = .fix → t.offer.isSome = true))

/-- The tables for the next instruction. -/
def update (ok : Bool) : RenameTables c :=
  let writes := t.accepts u ok && u.needsPreg
  { element := if writes then Function.update t.element u.ldst (t.pdst u) else t.element
    free := fun p => t.free p && decide (t.offer ≠ some p)
    busy := if writes then Function.update t.busy (t.pdst u) true else t.busy }

end RenameTables

open RenameTables

namespace RenameStage

variable {s : RenameStage c} {i : RenameInput c n}

/-! ### The bundle in turn -/

/-- The tables when slot `k` has its turn. -/
def tablesBefore (s : RenameStage c) (i : RenameInput c n) : ℕ → RenameTables c
  | 0 => ⟨s.mapTable.element, s.freeList.freeList, busyTableRead s.tableBsy i.wbPdsts⟩
  | k + 1 =>
    if h : k < n then
      (tablesBefore s i k).update (i.decUops ⟨k, h⟩)
        (i.decMask ⟨k, h⟩ && i.disInstCanProceed ⟨k, h⟩ && !i.kill)
    else tablesBefore s i k

/-- The results of the stage for slot `w`. -/
def result (s : RenameStage c) (i : RenameInput c n) (w : Fin n) : RenameResult c :=
  let u := s.renUops i w
  ⟨u.pop1, u.pop2, u.pdst, if u.ldstVal then some u.stalePdst else none, u.prs1Busy, u.prs2Busy⟩

/-- **A bundle is renamed as its instructions would be in turn.** -/
def BundleSequential (s : RenameStage c) (i : RenameInput c n) : Prop :=
  ∀ w : Fin n, s.result i w = (s.tablesBefore i w).rename (i.decUops w)

/-- At most one slot before `w` writes register `r`. -/
def OneWriter (s : RenameStage c) (i : RenameInput c n) (w : Fin n) (r : LReg) : Prop :=
  ∀ x y : Fin n, x < w → y < w → s.wens i x r = true → s.wens i y r = true → x = y

/-- If the mapping of `r` is handed to a slot before `w`, then `r` is written before `w`, or its
mapping is busy already. -/
def NotHandedOut (s : RenameStage c) (i : RenameInput c n) (w : Fin n) (r : LReg) : Prop :=
  ∀ x : Fin n, x < w → s.writes i x = true → s.reqPregs x = some (s.mapTable.element r) →
    (∃ y : Fin n, y < w ∧ s.wens i y r = true) ∨
      busyTableRead s.tableBsy i.wbPdsts (s.mapTable.element r) = true

/-- The registers slot `w` names are written at most once before it, and its sources are not handed
out. -/
structure SlotOk (s : RenameStage c) (i : RenameInput c n) (w : Fin n) : Prop where
  lrs1 : (i.decUops w).lrs1Rtype = .fix →
    s.OneWriter i w (i.decUops w).lrs1 ∧ s.NotHandedOut i w (i.decUops w).lrs1
  lrs2 : (i.decUops w).lrs2Rtype = .fix →
    s.OneWriter i w (i.decUops w).lrs2 ∧ s.NotHandedOut i w (i.decUops w).lrs2
  ldst : (i.decUops w).ldstVal = true → s.OneWriter i w (i.decUops w).ldst

/-! ### The free list in turn -/

variable (t : RenameTables c) (k : ℕ) (w : Fin n)

theorem offer_eq :
    t.offer = (((List.finRange c.physRegCount).filter (· ≠ 0)).filter t.free).head? := by
  rw [List.filter_filter, List.head?_filter, RenameTables.offer, priorityEncoder]
  congr 1
  funext p
  exact Bool.and_comm _ _

/-- Striking off the first of the free registers leaves the rest. -/
theorem filter_offer :
    (((List.finRange c.physRegCount).filter (· ≠ 0)).filter fun p =>
      t.free p && decide (t.offer ≠ some p)) =
    (((List.finRange c.physRegCount).filter (· ≠ 0)).filter t.free).tail := by
  have hsplit : (((List.finRange c.physRegCount).filter (· ≠ 0)).filter fun p =>
      t.free p && decide (t.offer ≠ some p)) =
      (((List.finRange c.physRegCount).filter (· ≠ 0)).filter t.free).filter
        fun p => decide (t.offer ≠ some p) := by
    rw [List.filter_filter (p := fun p => decide (t.offer ≠ some p))]
    exact List.filter_congr fun p _ => Bool.and_comm _ _
  rw [hsplit, offer_eq]
  have hnodup : (((List.finRange c.physRegCount).filter (· ≠ 0)).filter t.free).Nodup :=
    ((List.nodup_finRange _).filter _).filter _
  cases hl : ((List.finRange c.physRegCount).filter (· ≠ 0)).filter t.free with
  | nil => rfl
  | cons a l =>
    rw [hl, List.nodup_cons] at hnodup
    rw [List.head?_cons, List.tail_cons, List.filter_cons_of_neg (by simp)]
    refine List.filter_eq_self.mpr fun p hp => ?_
    have hne : a ≠ p := fun heq => hnodup.1 (heq ▸ hp)
    simpa using hne

/-- The free list when slot `k` has its turn. -/
theorem freeRegs_tablesBefore (hk : k ≤ n) :
    ((List.finRange c.physRegCount).filter (· ≠ 0)).filter (s.tablesBefore i k).free =
      s.freeList.freeRegs.drop k := by
  induction k with
  | zero => rfl
  | succ k ih =>
    have hlt : k < n := hk
    rw [tablesBefore, dif_pos hlt]
    calc ((List.finRange c.physRegCount).filter (· ≠ 0)).filter (fun p =>
            (s.tablesBefore i k).free p && decide ((s.tablesBefore i k).offer ≠ some p))
        = (s.freeList.freeRegs.drop k).tail := by rw [filter_offer, ih hlt.le]
      _ = s.freeList.freeRegs.drop (k + 1) := List.tail_drop

theorem offer_tablesBefore : (s.tablesBefore i w).offer = s.reqPregs w := by
  rw [offer_eq, freeRegs_tablesBefore w w.isLt.le, List.head?_drop, reqPregs,
    RenameFreeList.requestedPregs_eq]

theorem pdst_tablesBefore : (s.tablesBefore i w).pdst (i.decUops w) = s.pdst i w := by
  rw [RenameTables.pdst, offer_tablesBefore]
  rfl

/-! ### The other tables in turn -/

theorem needsPreg_of_ldstVal {u : DecUop c} (h : u.ldstVal = true) : u.needsPreg = true := by
  rw [DecUop.needsPreg, h]
  rw [DecUop.ldstVal] at h
  cases hr : u.ldstRtype with
  | fix => rfl
  | x => simp [hr] at h

theorem accepts_tablesBefore : (s.tablesBefore i w).accepts (i.decUops w)
    (i.decMask w && i.disInstCanProceed w && !i.kill) = s.renMask i w := by
  rw [accepts, offer_tablesBefore, renMask, instCanProceed]
  cases (i.decUops w).ldstRtype <;> cases (s.reqPregs w).isSome <;> cases i.decMask w <;>
    cases i.disInstCanProceed w <;> cases i.kill <;> rfl

theorem writes_eq :
    s.writes i w = (s.renMask i w && (i.decUops w).ldstVal) := by
  cases hval : (i.decUops w).ldstVal with
  | false => simp [writes, DecUop.needsPreg, hval]
  | true =>
    have hneeds := needsPreg_of_ldstVal hval
    rw [writes, hneeds, Bool.and_true]
    rw [DecUop.needsPreg, hval, Bool.true_and, decide_eq_true_eq] at hneeds
    cases hmask : s.renMask i w with
    | false => rfl
    | true =>
      rw [renMask, instCanProceed] at hmask
      simp only [hneeds, Bool.and_eq_true, Bool.or_eq_true, decide_eq_true_eq, ne_eq,
        not_true_eq_false, and_true, or_false] at hmask
      rw [hmask.1.2.1]
      rfl

theorem wens_eq_true {w : Fin n} {r : LReg} :
    s.wens i w r = true ↔ s.writes i w = true ∧ (i.decUops w).ldst = r := by
  simp [wens]

theorem pdst_of_writes {w : Fin n} (h : s.writes i w = true) :
    s.reqPregs w = some (s.pdst i w) := by
  rw [writes, Bool.and_eq_true, Bool.and_eq_true] at h
  obtain ⟨p, hp⟩ := Option.isSome_iff_exists.mp h.2
  rw [pdst, h.1.2, hp]
  rfl

theorem pdst_inj {x y : Fin n} (hx : s.writes i x = true) (hy : s.writes i y = true)
    (h : s.pdst i x = s.pdst i y) : x = y :=
  s.freeList.requestedPregs_inj (pdst_of_writes hx) (h ▸ pdst_of_writes hy)

theorem update_tablesBefore (hk : k < n) :
    let w : Fin n := ⟨k, hk⟩
    (s.tablesBefore i (k + 1)).element = (if s.writes i w then
      Function.update (s.tablesBefore i k).element (i.decUops w).ldst (s.pdst i w)
      else (s.tablesBefore i k).element) ∧
    (s.tablesBefore i (k + 1)).busy = if s.writes i w then
      Function.update (s.tablesBefore i k).busy (s.pdst i w) true
      else (s.tablesBefore i k).busy := by
  intro w
  have hwrites : (s.renMask i w && (i.decUops w).needsPreg) = s.writes i w := by
    rw [writes_eq]
    cases hval : (i.decUops w).ldstVal with
    | false => simp [DecUop.needsPreg, hval]
    | true => rw [needsPreg_of_ldstVal hval]
  rw [tablesBefore, dif_pos hk]
  simp only [update]
  rw [accepts_tablesBefore w, hwrites, pdst_tablesBefore w]
  exact ⟨rfl, rfl⟩

/-- What register `r` is mapped to in slot `k`'s turn: what the last slot before `k` wrote. -/
theorem element_tablesBefore (hk : k ≤ n) (r : LReg) :
    (s.tablesBefore i k).element r =
      (RenameMapTable.lastWrite (s.wens i) (s.pdst i) (fun x => decide ((x : ℕ) < k)) r).getD
        (s.mapTable.element r) := by
  induction k with
  | zero =>
    have hnone : (lastEncoder fun w : Fin n => decide ((w : ℕ) < 0) && s.wens i w r) = none :=
      lastEncoder_eq_none.mpr fun w => by simp
    rw [RenameMapTable.lastWrite, hnone]
    rfl
  | succ k ih =>
    have hlt : k < n := hk
    rw [(update_tablesBefore k hlt).1]
    by_cases hw : s.wens i ⟨k, hlt⟩ r = true
    · obtain ⟨hwrites, hldst⟩ := wens_eq_true.mp hw
      have hlast : (lastEncoder fun w : Fin n => decide ((w : ℕ) < k + 1) && s.wens i w r) =
          some ⟨k, hlt⟩ := by
        refine lastEncoder_eq_some.mpr ⟨by simp [hw], fun j hj => ?_⟩
        have hge : ¬(j : ℕ) < k + 1 := (Nat.succ_le_of_lt (Fin.lt_def.mp hj)).not_gt
        simp [hge]
      rw [RenameMapTable.lastWrite, hlast, if_pos hwrites, ← hldst, Function.update_self]
      rfl
    · have hsame : (fun w : Fin n => decide ((w : ℕ) < k + 1) && s.wens i w r) =
          fun w : Fin n => decide ((w : ℕ) < k) && s.wens i w r := by
        funext w
        rcases lt_trichotomy (w : ℕ) k with h | h | h
        · simp [h, h.trans (Nat.lt_succ_self k)]
        · have hwk : w = ⟨k, hlt⟩ := Fin.ext h
          rw [Bool.not_eq_true] at hw
          simp [hwk, hw]
        · simp [h.not_gt, (Nat.succ_le_of_lt h).not_gt]
      rw [RenameMapTable.lastWrite, hsame]
      rw [RenameMapTable.lastWrite] at ih
      rw [← ih hlt.le]
      split
      · rename_i hwrites
        refine Function.update_of_ne ?_ _ _
        rintro rfl
        exact hw (wens_eq_true.mpr ⟨hwrites, rfl⟩)
      · rfl

theorem busy_tablesBefore (hk : k ≤ n) (p : PReg c) :
    (s.tablesBefore i k).busy p = true ↔ busyTableRead s.tableBsy i.wbPdsts p = true ∨
      ∃ x : Fin n, (x : ℕ) < k ∧ s.writes i x = true ∧ s.pdst i x = p := by
  induction k with
  | zero => simp [tablesBefore]
  | succ k ih =>
    have hlt : k < n := hk
    have hsplit : (∃ x : Fin n, (x : ℕ) < k + 1 ∧ s.writes i x = true ∧ s.pdst i x = p) ↔
        (∃ x : Fin n, (x : ℕ) < k ∧ s.writes i x = true ∧ s.pdst i x = p) ∨
          s.writes i ⟨k, hlt⟩ = true ∧ s.pdst i ⟨k, hlt⟩ = p := by
      constructor
      · rintro ⟨x, hx, h⟩
        rcases Nat.lt_succ_iff_lt_or_eq.mp hx with hx | hx
        · exact .inl ⟨x, hx, h⟩
        · exact .inr ((Fin.ext hx : x = ⟨k, hlt⟩) ▸ h)
      · rintro (⟨x, hx, h⟩ | h)
        · exact ⟨x, hx.trans (Nat.lt_succ_self k), h⟩
        · exact ⟨⟨k, hlt⟩, Nat.lt_succ_self k, h⟩
    rw [hsplit, (update_tablesBefore k hlt).2, ← or_assoc, ← ih hlt.le]
    by_cases hwrites : s.writes i ⟨k, hlt⟩ = true
    · rw [if_pos hwrites, Function.update_apply]
      by_cases hp : p = s.pdst i ⟨k, hlt⟩
      · simp [hp, hwrites]
      · simp [hp, Ne.symm hp]
    · simp [hwrites]

/-! ### The first writer and the last one -/

/-- A register is bypassed from the first slot that writes it. -/
theorem bypass_eq (r : LReg) :
    s.bypass i w r = priorityEncoder fun x => decide (x < w) && s.wens i x r := by
  rw [bypass]
  congr 1
  funext x
  rw [wens, writes_eq]
  simp only [Bool.and_assoc, eq_comm]

/-- What register `r` is read as when it is bypassed, and what the sequential process reads. -/
theorem bypass_eq_lastWrite_iff (r : LReg) :
    ((s.bypass i w r).map (s.pdst i)).getD (s.mapTable.element r) =
      (s.tablesBefore i w).element r ↔ s.OneWriter i w r := by
  rw [element_tablesBefore w w.isLt.le, bypass_eq, RenameMapTable.lastWrite]
  rcases hfirst : priorityEncoder fun x : Fin n => decide (x < w) && s.wens i x r with _ | x
  · have hno := priorityEncoder_eq_none.mp hfirst
    have hlast : (lastEncoder fun x : Fin n => decide ((x : ℕ) < w) && s.wens i x r) = none :=
      lastEncoder_eq_none.mpr hno
    rw [hlast]
    refine iff_of_true rfl fun x y hx _ hxr _ => ?_
    have := hno x
    simp [hx, hxr] at this
  · obtain ⟨hup, hfirst'⟩ := priorityEncoder_eq_some.mp hfirst
    rw [Bool.and_eq_true, decide_eq_true_eq] at hup
    rcases hlast : lastEncoder fun x : Fin n => decide ((x : ℕ) < w) && s.wens i x r with _ | y
    · have := lastEncoder_eq_none.mp hlast x
      simp [hup.2, Fin.lt_def.mp hup.1] at this
    · obtain ⟨hupy, hlast'⟩ := lastEncoder_eq_some.mp hlast
      rw [Bool.and_eq_true, decide_eq_true_eq] at hupy
      have hinj : s.pdst i x = s.pdst i y ↔ x = y :=
        ⟨pdst_inj (wens_eq_true.mp hup.2).1 (wens_eq_true.mp hupy.2).1, fun h => h ▸ rfl⟩
      rw [Option.map_some, Option.map_some, Option.getD_some, Option.getD_some, hinj]
      refine ⟨?_, fun h => h x y hup.1 hupy.1 hup.2 hupy.2⟩
      rintro rfl a b ha hb har hbr
      -- a writer is neither before the first one nor after the last one
      have honly : ∀ z < w, s.wens i z r = true → z = x := by
        intro z hz hzr
        rcases lt_trichotomy z x with hlt | heq | hgt
        · have := hfirst' z hlt
          simp [hz, hzr] at this
        · exact heq
        · have := hlast' z hgt
          simp [Fin.lt_def.mp hz, hzr] at this
      exact (honly a ha har).trans (honly b hb hbr).symm

/-! ### The results -/

theorem not_wens_zero : s.wens i w 0 = false := by
  rw [wens, writes_eq]
  by_cases h : (i.decUops w).ldst = 0
  · simp [DecUop.ldstVal, h]
  · simp [h]

theorem pop_eq_iff (rtype : RType) (r : LReg) :
    s.pop i w rtype r = (s.tablesBefore i w).operand rtype r ↔
      (rtype = .fix → s.OneWriter i w r) := by
  rcases rtype with _ | _
  · by_cases hr : r = 0
    · subst hr
      have hnone : s.bypass i w 0 = none := by
        rw [bypass_eq]
        exact priorityEncoder_eq_none.mpr fun x => by rw [not_wens_zero, Bool.and_false]
      have hone : s.OneWriter i w 0 := fun x y _ _ hx _ => by
        rw [not_wens_zero] at hx
        cases hx
      simp [pop, operand, hnone, hone]
    · rw [← bypass_eq_lastWrite_iff, pop, operand, if_pos rfl,
        if_pos (show RType.fix = .fix ∧ r ≠ 0 from ⟨rfl, hr⟩)]
      cases s.bypass i w r <;> simp [hr]
  · simp [pop, operand]

theorem prsBusy_eq_iff (rtype : RType) (r : LReg) (hone : s.OneWriter i w r) :
    s.prsBusy i w rtype r = (s.tablesBefore i w).operandBusy rtype r ↔
      (rtype = .fix → s.NotHandedOut i w r) := by
  rcases rtype with _ | _
  · simp only [prsBusy, operandBusy, decide_true, Bool.true_and, forall_true_left]
    have helement := (bypass_eq_lastWrite_iff w r).mpr hone
    rw [← helement, Bool.eq_iff_iff, busy_tablesBefore w w.isLt.le, Bool.or_eq_true]
    rcases hby : s.bypass i w r with _ | x
    · rw [bypass_eq] at hby
      have hno := priorityEncoder_eq_none.mp hby
      simp only [Option.isSome_none, Bool.false_eq_true, or_false, Option.map_none,
        Option.getD_none]
      constructor
      · intro hiff x hx hwrites hreq
        refine .inr (hiff.mpr (.inr ⟨x, hx, hwrites, ?_⟩))
        exact Option.some.inj ((pdst_of_writes hwrites).symm.trans hreq)
      · intro h
        refine ⟨.inl, ?_⟩
        rintro (hbusy | ⟨x, hx, hwrites, hp⟩)
        · exact hbusy
        · rcases h x hx hwrites (hp ▸ pdst_of_writes hwrites) with ⟨y, hy, hyr⟩ | hbusy
          · have := hno y
            simp [hy, hyr] at this
          · exact hbusy
    · have hup := priorityEncoder_some (bypass_eq w r ▸ hby)
      rw [Bool.and_eq_true, decide_eq_true_eq] at hup
      refine iff_of_true
        ⟨fun _ => .inr ⟨x, hup.1, (wens_eq_true.mp hup.2).1, rfl⟩, fun _ => .inr rfl⟩
        fun _ _ _ _ => .inl ⟨x, hup.1, hup.2⟩
  · simp [prsBusy, operandBusy]

theorem stalePdst_eq_iff :
    (if (i.decUops w).ldstVal then some (s.stalePdst i w) else none) =
      (if (i.decUops w).ldstVal then some ((s.tablesBefore i w).element (i.decUops w).ldst)
        else none) ↔
      ((i.decUops w).ldstVal = true → s.OneWriter i w (i.decUops w).ldst) := by
  cases hval : (i.decUops w).ldstVal with
  | false => simp
  | true =>
    rw [if_pos rfl, if_pos rfl, Option.some.injEq, ← bypass_eq_lastWrite_iff, stalePdst, hval,
      if_pos rfl]
    cases s.bypass i w (i.decUops w).ldst <;> simp

theorem result_eq_iff :
    s.result i w = (s.tablesBefore i w).rename (i.decUops w) ↔ s.SlotOk i w := by
  rw [RenameResult.ext_iff]
  show s.pop i w _ _ = _ ∧ s.pop i w _ _ = _ ∧ s.pdst i w = _ ∧ _ = _ ∧ s.prsBusy i w _ _ = _ ∧
    s.prsBusy i w _ _ = _ ↔ _
  constructor
  · rintro ⟨h1, h2, _, hstale, hb1, hb2⟩
    have hone1 := (pop_eq_iff w _ _).mp h1
    have hone2 := (pop_eq_iff w _ _).mp h2
    exact ⟨fun h => ⟨hone1 h, (prsBusy_eq_iff w _ _ (hone1 h)).mp hb1 h⟩,
      fun h => ⟨hone2 h, (prsBusy_eq_iff w _ _ (hone2 h)).mp hb2 h⟩, (stalePdst_eq_iff w).mp hstale⟩
  · intro h
    have hbusy : ∀ (rtype : RType) (r : LReg),
        (rtype = .fix → s.OneWriter i w r ∧ s.NotHandedOut i w r) →
        s.prsBusy i w rtype r = (s.tablesBefore i w).operandBusy rtype r := by
      intro rtype r hok
      rcases rtype with _ | _
      · exact (prsBusy_eq_iff w .fix r (hok rfl).1).mpr fun _ => (hok rfl).2
      · simp [prsBusy, operandBusy]
    exact ⟨(pop_eq_iff w _ _).mpr fun hr => (h.lrs1 hr).1,
      (pop_eq_iff w _ _).mpr fun hr => (h.lrs2 hr).1, (pdst_tablesBefore w).symm,
      (stalePdst_eq_iff w).mpr h.ldst, hbusy _ _ h.lrs1, hbusy _ _ h.lrs2⟩

/-! ### One slot or two -/

/-- Neither source of slot `w` is mapped to a register that is handed out before it. -/
structure SourcesKept (s : RenameStage c) (i : RenameInput c n) (w : Fin n) : Prop where
  lrs1 : (i.decUops w).lrs1Rtype = .fix → s.NotHandedOut i w (i.decUops w).lrs1
  lrs2 : (i.decUops w).lrs2Rtype = .fix → s.NotHandedOut i w (i.decUops w).lrs2

/-- No register on the free list is mapped. -/
def FreeUnmapped (s : RenameStage c) : Prop :=
  ∀ r, s.mapTable.element r ≠ 0 → s.freeList.freeList (s.mapTable.element r) = false

theorem oneWriter_of_le_two (hn : n ≤ 2) (r : LReg) : s.OneWriter i w r := by
  intro x y hx hy _ _
  apply Fin.ext
  have := Fin.lt_def.mp hx
  have := Fin.lt_def.mp hy
  omega

theorem slotOk_iff_of_le_two (hn : n ≤ 2) : s.SlotOk i w ↔ s.SourcesKept i w := by
  have hone := fun r => oneWriter_of_le_two (s := s) (i := i) w hn r
  exact ⟨fun h => ⟨fun hr => (h.lrs1 hr).2, fun hr => (h.lrs2 hr).2⟩,
    fun h => ⟨fun hr => ⟨hone _, h.lrs1 hr⟩, fun hr => ⟨hone _, h.lrs2 hr⟩, fun _ => hone _⟩⟩

theorem FreeUnmapped.notHandedOut (h : s.FreeUnmapped) (r : LReg) : s.NotHandedOut i w r := by
  intro x _ _ hreq
  obtain ⟨hne, hfree⟩ := s.freeList.of_requestedPregs hreq
  rw [h r hne] at hfree
  cases hfree

theorem sequential_iff_of_le_two (hn : n ≤ 2) :
    s.BundleSequential i ↔ ∀ w, s.SourcesKept i w :=
  forall_congr' fun w => (result_eq_iff w).trans (slotOk_iff_of_le_two w hn)

theorem FreeUnmapped.sequential (h : s.FreeUnmapped) (hn : n ≤ 2) : s.BundleSequential i :=
  (sequential_iff_of_le_two hn).mpr fun w =>
    ⟨fun _ => h.notHandedOut w _, fun _ => h.notHandedOut w _⟩

theorem decodeWidth_le : c.decodeWidth ≤ 2 := by
  rcases c.decodeWidth_eq with h | h <;> omega

/-- **Renaming a bundle is renaming its instructions in turn**, exactly if no slot has a source that
is mapped to a register handed out before it; so always, if no register on the free list is
mapped. -/
theorem bundleSequential_iff (s : RenameStage c) (i : RenameInput c c.decodeWidth) :
    (s.BundleSequential i ↔ ∀ w, s.SourcesKept i w) ∧ (s.FreeUnmapped → s.BundleSequential i) :=
  ⟨sequential_iff_of_le_two decodeWidth_le, fun h => h.sequential decodeWidth_le⟩

/-- The stage after reset, every other register cleared. -/
def reset (c : BOOMConf) : RenameStage c where
  mapTable := ⟨fun _ => 0, fun _ _ => 0⟩
  freeList := ⟨fun p => decide (p ≠ 0), fun _ _ => false⟩
  tableBsy _ := false

/-- The same, with `x6` mapped to `p`. -/
def resetWith (p : PReg .chip) : RenameStage .chip :=
  { reset .chip with mapTable := ⟨fun r => if r = 6 then p else 0, fun _ _ => 0⟩ }

/-- `x5 := x0`, then `x7 := f(x5, x6)`. -/
def readAfterWrite : RenameInput .chip 2 where
  kill := false
  decMask _ := true
  decUops w := ⟨if w = 0 then 5 else 7, if w = 0 then 0 else 5, if w = 0 then 0 else 6, .fix, .fix,
    .fix, false, false, 0, fun _ => false⟩
  brinfo := none
  disInstCanProceed _ := true
  wbPdsts := []
  comValids _ := false
  comUops _ := ⟨⟨0, 0, 0, .x, .x, .x, false, false, 0, fun _ => false⟩, 0, 0, 0, 0, false, false⟩
  comRbkValids _ := false

theorem bundleSequential_iff_bypassed : (resetWith 0).BundleSequential readAfterWrite ∧
    ((resetWith 0).result readAfterWrite 1).pop1 = 1 := by
  refine ⟨(bundleSequential_iff (resetWith 0) readAfterWrite).2 fun r hr => ?_, by decide +kernel⟩
  exact absurd (ite_self 0) hr

/-- `P1` is free and mapped. The first slot takes it, and the second one finds `x6` ready. -/
theorem not_bundleSequential : ¬(resetWith 1).BundleSequential readAfterWrite := by
  intro h
  have hbusy : ((resetWith 1).result readAfterWrite 1).prs2Busy =
      (((resetWith 1).tablesBefore readAfterWrite 1).rename
        (readAfterWrite.decUops 1)).prs2Busy := congrArg RenameResult.prs2Busy (h 1)
  revert hbusy
  decide +kernel

end RenameStage

end RiscvSoc
