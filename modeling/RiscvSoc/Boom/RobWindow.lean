import RiscvSoc.Boom.Rob

/-!
# The reorder buffer as a queue

Read from the head on, the valid entries of the buffer are a list: the window. One cycle takes some
micro-ops out of it and appends what is dispatched. What is taken out lies at the ends: micro-ops
commit from the front, a mispredicted branch kills all that are behind it, and a rollback takes the
row at the tail.

The buffer can only be read this way while its rows are laid out properly. `Rob.Shaped` says how,
and `Rob.Accepts` what a cycle may be fed so that they stay that way. A rollback starts at the row
*after* the last one in use, so the row at the tail may be in use from its second cycle on.
-/

namespace RiscvSoc

variable {c : BOOMConf}

theorem getNewBrMask_of_not_match {b : BrResolutionInfo c} {m : BrMask c}
    (h : maskMatch b.mask m = false) : getNewBrMask (some b) m = m := by
  funext t
  have hnot : ¬(b.mask t = true ∧ m t = true) := fun hboth =>
    Bool.false_ne_true (h.symm.trans (maskMatch_eq_true.mpr ⟨t, hboth⟩))
  rw [not_and, Bool.not_eq_true] at hnot
  cases hb : b.mask t with
  | false => simp [getNewBrMask, hb]
  | true => simp [getNewBrMask, hnot hb]

namespace Rob

variable (s : Rob c) (i : RobInput c)

/-- The entries in use. -/
def slots : List (RobSlot c) := occupied (fun x => (s.entry x).val) s.head

/-- The micro-ops in the buffer, the oldest first. -/
def window : List (RobUop c) := s.slots.map fun x => (s.entry x).uop

/-- Entry `x` is taken out. -/
def removes (x : RobSlot c) : Bool := s.commits x || s.brKills i x || s.rollsBack x

/-- What is dispatched, in the order of the slots. -/
def newUops : List (RobUop c) := ((List.finRange c.decodeWidth).filter i.disMask).map i.disUops

/-- How the entries in use are laid out. -/
structure Shaped : Prop where
  le_tail : ∀ x, (s.entry x).val = true → rowPlace s.head x.1 ≤ rowPlace s.head s.tail
  lt_tail : s.state ≠ .rollback ∨ s.flushPipeline = true → ∀ x, (s.entry x).val = true →
    rowPlace s.head x.1 < rowPlace s.head s.tail
  filled : s.state ≠ .rollback → ∀ r, rowPlace s.head r < rowPlace s.head s.tail →
    ∃ w, (s.entry (r, w)).val = true
  addressed : ∀ x, (s.entry x).val = true → robSlot (s.entry x).uop.robIdx = x

/-- What a cycle may be fed. A branch is resolved before it can commit, and its resolution kills
what is behind it. -/
structure Accepts : Prop where
  ready : ∀ w, i.disMask w = true → s.ready = true
  noMispredict : ∀ w, i.disMask w = true → i.mispredict = none
  robIdx : ∀ w, i.disMask w = true → robSlot (i.disUops w).robIdx = (s.tail, w)
  early : ∀ b, i.mispredict = some b → s.state ≠ .rollback ∨ s.flushPipeline = true
  branch : ∀ b, i.mispredict = some b → (s.entry (robSlot b.robIdx)).val = true
  waits : ∀ b, i.mispredict = some b → s.commits (robSlot b.robIdx) = false
  kills : ∀ b, i.mispredict = some b → ∀ x, (s.entry x).val = true →
    (s.brKills i x = true ↔ place s.head (robSlot b.robIdx) < place s.head x)

variable {s i}

/-! ### The head of the buffer -/

variable {x : RobSlot c} {w : Bank c}

theorem mem_slots : x ∈ s.slots ↔ (s.entry x).val = true := mem_occupied

theorem mem_window {u : RobUop c} :
    u ∈ s.window ↔ ∃ x, (s.entry x).val = true ∧ (s.entry x).uop = u := by
  rw [window, List.mem_map]
  exact exists_congr fun x => and_congr_left fun _ => mem_slots

theorem blockCommit_eq_false :
    s.blockCommit w = false ↔ (s.state = .normal ∨ s.state = .waitTillEmpty) ∧
      ∀ v < w, s.headVal v = true → s.canCommit v = true ∧ s.canThrowException v = false := by
  have horR : (orR fun v => decide (v < w) && s.headVal v &&
      (!s.canCommit v || s.canThrowException v)) = false ↔
      ∀ v < w, s.headVal v = true → s.canCommit v = true ∧ s.canThrowException v = false := by
    rw [← Bool.not_eq_true, orR_eq_true, not_exists]
    refine forall_congr' fun v => ?_
    cases s.headVal v <;> cases s.canCommit v <;> cases s.canThrowException v <;> simp
  rw [blockCommit, Bool.or_eq_false_iff, horR, decide_eq_false_iff_not]
  refine and_congr_left fun _ => ?_
  cases s.state <;> simp

/-- **A micro-op commits** when neither it nor an older one of its row is busy or has an
exception. -/
theorem willCommit_eq_true :
    s.willCommit w = true ↔ (s.state = .normal ∨ s.state = .waitTillEmpty) ∧ s.headVal w = true ∧
      ∀ v ≤ w, s.headVal v = true → (s.entry (s.head, v)).bsy = false ∧
        (s.entry (s.head, v)).exception = false := by
  have hslot : ∀ v, s.headVal v = true → ((s.canCommit v = true ∧ s.canThrowException v = false) ↔
      (s.entry (s.head, v)).bsy = false ∧ (s.entry (s.head, v)).exception = false) := by
    intro v hv
    simp [canCommit, canThrowException, hv]
  rw [willCommit, Bool.and_eq_true, Bool.and_eq_true, Bool.not_eq_true', Bool.not_eq_true',
    blockCommit_eq_false]
  constructor
  · rintro ⟨⟨hcom, hthrow⟩, hstate, hold⟩
    have hval : s.headVal w = true := (Bool.and_eq_true_iff.mp hcom).1
    refine ⟨hstate, hval, fun v hv hvv => (hslot v hvv).mp ?_⟩
    rcases eq_or_lt_of_le hv with rfl | hlt
    · exact ⟨hcom, hthrow⟩
    · exact hold v hlt hvv
  · rintro ⟨hstate, hval, hall⟩
    have hw := (hslot w hval).mpr (hall w le_rfl hval)
    exact ⟨⟨hw.1, hw.2⟩, hstate, fun v hv hvv => (hslot v hvv).mpr (hall v hv.le hvv)⟩

/-- **An exception is thrown** for the first micro-op of the head row. -/
theorem exceptionThrown_eq_true :
    s.exceptionThrown = true ↔ (s.state = .normal ∨ s.state = .waitTillEmpty) ∧
      ∃ w, s.headVal w = true ∧ (s.entry (s.head, w)).exception = true ∧
        ∀ v < w, s.headVal v = false := by
  rw [exceptionThrown, orR_eq_true]
  constructor
  · rintro ⟨w, hw⟩
    rw [Bool.and_eq_true, Bool.and_eq_true, Bool.not_eq_true', Bool.not_eq_true'] at hw
    obtain ⟨⟨hthrow, hblock⟩, hxcpt⟩ := hw
    obtain ⟨hstate, hold⟩ := blockCommit_eq_false.mp hblock
    obtain ⟨hval, hexc⟩ := Bool.and_eq_true_iff.mp hthrow
    refine ⟨hstate, w, hval, hexc, fun v hv => ?_⟩
    by_contra hvv
    rw [Bool.not_eq_false] at hvv
    -- with two slots the older one is the neighbour, and it would commit
    have hnext : (v : ℕ) + 1 = w := by
      have := w.isLt
      have := Fin.lt_def.mp hv
      rcases c.decodeWidth_eq with h | h <;> omega
    have hcommit : s.willCommit v = true := by
      refine willCommit_eq_true.mpr ⟨hstate, hvv, fun u hu huv => ?_⟩
      have hu := hold u (lt_of_le_of_lt hu hv) huv
      simpa [canCommit, canThrowException, huv] using hu
    have hblocked : s.blockXcpt w = true :=
      orR_eq_true.mpr ⟨v, by rw [hcommit, Bool.and_true, decide_eq_true_eq]; exact hnext⟩
    rw [hblocked] at hxcpt
    cases hxcpt
  · rintro ⟨hstate, w, hval, hexc, hfirst⟩
    refine ⟨w, ?_⟩
    have hblock : s.blockCommit w = false :=
      blockCommit_eq_false.mpr ⟨hstate, fun v hv hvv => by rw [hfirst v hv] at hvv; cases hvv⟩
    have hxcpt : s.blockXcpt w = false := by
      rw [← Bool.not_eq_true, blockXcpt, orR_eq_true]
      rintro ⟨v, hv⟩
      rw [Bool.and_eq_true, decide_eq_true_eq] at hv
      have hlt : v < w := Fin.lt_def.mpr (by omega)
      have hvv := (willCommit_eq_true.mp hv.2).2.1
      rw [hfirst v hlt] at hvv
      cases hvv
    rw [canThrowException, hval, hexc, hblock, hxcpt]
    rfl

theorem commits_eq_true :
    s.commits x = true ↔ x.1 = s.head ∧ s.willCommit x.2 = true := by
  rw [commits, Bool.and_eq_true, decide_eq_true_eq]

theorem val_of_commits (h : s.commits x = true) : (s.entry x).val = true := by
  obtain ⟨hrow, hw⟩ := commits_eq_true.mp h
  have hval := (willCommit_eq_true.mp hw).2.1
  rwa [headVal, ← hrow] at hval

theorem state_of_commits (h : s.commits x = true) :
    s.state = .normal ∨ s.state = .waitTillEmpty :=
  (willCommit_eq_true.mp (commits_eq_true.mp h).2).1

theorem not_rollback_of_commits (h : s.commits x = true) :
    s.state ≠ .rollback := by
  rcases state_of_commits h with hs | hs <;> simp [hs]

/-- What is older than a micro-op that commits commits as well. -/
theorem commits_of_place_lt {x y : RobSlot c} (hx : s.commits x = true)
    (hy : (s.entry y).val = true) (hlt : place s.head y < place s.head x) :
    s.commits y = true := by
  obtain ⟨hrow, hcom⟩ := commits_eq_true.mp hx
  have hle := rowPlace_le_of_place_lt hlt
  rw [hrow, rowPlace_self] at hle
  have hrow' : y.1 = s.head := rowPlace_eq_zero.mp (Nat.le_zero.mp hle)
  have hbank := lt_of_place_lt hlt (hrow'.trans hrow.symm)
  obtain ⟨hstate, _, hall⟩ := willCommit_eq_true.mp hcom
  refine commits_eq_true.mpr ⟨hrow', willCommit_eq_true.mpr ⟨hstate, ?_, fun v hv hvv => ?_⟩⟩
  · rw [headVal, ← hrow']
    exact hy
  · exact hall v (hv.trans hbank.le) hvv

theorem val_of_brKills (h : s.brKills i x = true) : (s.entry x).val = true :=
  (Bool.and_eq_true_iff.mp h).1

theorem rollsBack_eq_true :
    s.rollsBack x = true ↔ s.state = .rollback ∧ x.1 = s.tail := by
  rw [rollsBack, Bool.and_eq_true, decide_eq_true_eq, decide_eq_true_eq]

theorem removes_eq_false : s.removes i x = false ↔
    s.commits x = false ∧ s.brKills i x = false ∧ s.rollsBack x = false := by
  rw [removes, Bool.or_eq_false_iff, Bool.or_eq_false_iff, and_assoc]

/-! ### A cycle -/

theorem val_nextEntry (x : RobSlot c) :
    (s.nextEntry i x).val = (!s.removes i x && (s.fills i x || (s.entry x).val)) := by
  simp only [nextEntry, removes]
  cases s.commits x <;> cases s.brKills i x <;> cases s.rollsBack x <;> cases s.fills i x <;> simp

theorem val_next_eq_true : ((s.next i).entry x).val = true ↔
    s.removes i x = false ∧ (s.fills i x = true ∨ (s.entry x).val = true) := by
  show (s.nextEntry i x).val = true ↔ _
  rw [val_nextEntry, Bool.and_eq_true, Bool.not_eq_true', Bool.or_eq_true]

theorem fills_eq_true :
    s.fills i x = true ↔ x.1 = s.tail ∧ i.disMask x.2 = true := by
  rw [fills, Bool.and_eq_true, decide_eq_true_eq]

theorem ready_eq_true : s.ready = true ↔ s.state = .normal ∧ s.tail + 1 ≠ s.head := by
  rw [ready, full, Bool.and_eq_true, decide_eq_true_eq, Bool.not_eq_true', decide_eq_false_iff_not]

theorem Accepts.normal (ha : s.Accepts i) (hw : i.disMask w = true) :
    s.state = .normal := (ready_eq_true.mp (ha.ready w hw)).1

theorem Shaped.val_of_tail (hs : s.Shaped) (hnormal : s.state = .normal) (hx : x.1 = s.tail) :
    (s.entry x).val = false := by
  rw [← Bool.not_eq_true]
  intro hval
  have hlt := hs.lt_tail (.inl (by rw [hnormal]; decide)) x hval
  rw [hx] at hlt
  exact hlt.false

theorem Shaped.val_of_fills (hs : s.Shaped) (ha : s.Accepts i)
    (hx : s.fills i x = true) : (s.entry x).val = false :=
  hs.val_of_tail (ha.normal (fills_eq_true.mp hx).2) (fills_eq_true.mp hx).1

theorem fills_of_ne (hx : x.1 ≠ s.tail) : s.fills i x = false := by
  rw [← Bool.not_eq_true, fills_eq_true]
  exact fun h => hx h.1

theorem Shaped.fills_of_val (hs : s.Shaped) (ha : s.Accepts i) (hx : (s.entry x).val = true) :
    s.fills i x = false := by
  rw [← Bool.not_eq_true]
  intro h
  rw [hs.val_of_fills ha h] at hx
  cases hx

theorem removes_of_vacant (hnormal : s.state = .normal) (hval : (s.entry x).val = false) :
    s.removes i x = false := by
  refine removes_eq_false.mpr ⟨?_, ?_, ?_⟩
  · exact Bool.eq_false_iff.mpr fun h => by rw [val_of_commits h] at hval; cases hval
  · exact Bool.eq_false_iff.mpr fun h => by rw [val_of_brKills h] at hval; cases hval
  · exact Bool.eq_false_iff.mpr fun h => by
      rw [rollsBack_eq_true, hnormal] at h
      cases h.1

theorem Shaped.tail_ne_head (hs : s.Shaped) (hx : s.commits x = true) :
    s.tail ≠ s.head := by
  have hlt := hs.lt_tail (.inl (not_rollback_of_commits hx)) x (val_of_commits hx)
  intro heq
  rw [heq, rowPlace_self] at hlt
  exact Nat.not_lt_zero _ hlt

theorem headDone_eq_true : s.headDone = true ↔
    (∃ w, s.willCommit w = true) ∧ ∀ w, s.willCommit w = s.headVal w := by
  rw [headDone, Bool.and_eq_true, orR_eq_true, decide_eq_true_eq]

theorem Shaped.val_next_of_headDone (hs : s.Shaped) (hdone : s.headDone = true)
    (hx : x.1 = s.head) : ((s.next i).entry x).val = false := by
  obtain ⟨⟨w, hw⟩, hall⟩ := headDone_eq_true.mp hdone
  have hne := hs.tail_ne_head (commits_eq_true (x := (s.head, w)).mpr ⟨rfl, hw⟩)
  show (s.nextEntry i x).val = false
  rw [val_nextEntry, fills_of_ne fun h => hne (h.symm.trans hx), Bool.false_or]
  cases hval : (s.entry x).val with
  | false => rw [Bool.and_false]
  | true =>
    have hcom : s.commits x = true := by
      refine commits_eq_true.mpr ⟨hx, (hall x.2).trans ?_⟩
      rwa [headVal, ← hx]
    rw [removes, hcom]
    rfl

section

variable (hs : s.Shaped) (ha : s.Accepts i)
include hs ha

theorem Shaped.slots_next :
    (s.next i).slots = s.slots.filter (fun x => !s.removes i x) ++
      (rowEntries c.decodeWidth s.tail).filter (s.fills i) := by
  have hhead : (s.next i).slots = occupied (fun x => (s.nextEntry i x).val) s.head := by
    show occupied _ (if s.headDone then s.head + 1 else s.head) = _
    split
    · rename_i hdone
      exact occupied_succ fun x hx => hs.val_next_of_headDone hdone hx
    · rfl
  rw [hhead, slots]
  by_cases hdis : ∃ w, i.disMask w = true
  · obtain ⟨w, hw⟩ := hdis
    have hnormal := ha.normal hw
    rw [occupied_fill _ _ (fun x => !s.removes i x)
      (fun x hx => hs.lt_tail (.inl (by rw [hnormal]; decide)) x hx)]
    · congr 1
      refine List.filter_congr fun x hx => ?_
      rw [mem_rowEntries] at hx
      -- nothing was in the row, so nothing is taken out of it
      have hval := hs.val_of_tail hnormal hx
      rw [val_nextEntry, hval, removes_of_vacant hnormal hval, Bool.or_false]
      rfl
    · intro x hx
      rw [val_nextEntry, fills_of_ne hx, Bool.false_or, Bool.and_comm]
  · have hnofill : ∀ x, s.fills i x = false := by
      intro x
      rw [← Bool.not_eq_true, fills_eq_true]
      exact fun h => hdis ⟨x.2, h.2⟩
    have hnew : (rowEntries c.decodeWidth s.tail).filter (s.fills i) = [] :=
      List.filter_eq_nil_iff.mpr fun x _ => by simp [hnofill x]
    rw [hnew, List.append_nil]
    refine occupied_filter fun x => ?_
    rw [val_nextEntry, hnofill, Bool.false_or, Bool.and_comm]

theorem uop_next_of_stays (hval : (s.entry x).val = true) (hkeep : s.removes i x = false) :
    ((s.next i).entry x).uop = (s.entry x).uop.resolve i.brinfo := by
  have hnofill := hs.fills_of_val ha hval
  have hnokill := (removes_eq_false.mp hkeep).2.1
  show (s.nextEntry i x).uop = _
  rw [brKills, hval, Bool.true_and] at hnokill
  simp only [nextEntry, hnofill, hval, Bool.and_true, Bool.false_eq_true, if_false]
  cases hb : i.brinfo with
  | none => rfl
  | some b =>
    rw [hb, isKilledByBranch] at hnokill
    dsimp only
    by_cases hclear : (!b.mispredict && maskMatch b.mask (s.entry x).uop.brMask) = true
    · rw [if_pos hclear]
      rfl
    · rw [if_neg hclear, RobUop.resolve, getNewBrMask_of_not_match]
      · rfl
      · cases hm : b.mispredict with
        | false => simpa [hm] using hclear
        | true => simpa [hm] using hnokill

theorem uop_next_of_fills (hx : s.fills i x = true) : ((s.next i).entry x).uop = i.disUops x.2 := by
  have hval := hs.val_of_fills ha hx
  show (s.nextEntry i x).uop = _
  simp only [nextEntry, hx, hval, if_true, Bool.and_false, Bool.false_and, Bool.false_eq_true,
    if_false]
  cases i.brinfo <;> rfl

theorem bsy_next_of_stays (hval : (s.entry x).val = true) (hclear : i.clearsBsy x = false) :
    ((s.next i).entry x).bsy = (s.entry x).bsy := by
  have hnofill := hs.fills_of_val ha hval
  show (s.nextEntry i x).bsy = _
  simp [nextEntry, hclear, hnofill]

end

theorem bsy_next_of_fills (hx : s.fills i x = true)
    (hclear : i.clearsBsy x = false) : ((s.next i).entry x).bsy =
      (!(i.disUops x.2).isSret && !(i.disUops x.2).isMemSpecial && !(i.disUops x.2).isFencei) := by
  show (s.nextEntry i x).bsy = _
  simp [nextEntry, hclear, hx]

/-- A busy bit that is cleared is clear, whatever else happens to the entry. -/
theorem bsy_next_of_clears (hclear : i.clearsBsy x = true) :
    ((s.next i).entry x).bsy = false := if_pos hclear

/-- An entry that stays has an exception if it had one, or if its micro-op came with one. -/
theorem exception_next (hkeep : s.removes i x = false)
    (h : if s.fills i x then (i.disUops x.2).exception = true else (s.entry x).exception = true) :
    ((s.next i).entry x).exception = true := by
  show (s.nextEntry i x).exception = true
  simp only [nextEntry, (removes_eq_false.mp hkeep).2.2, Bool.false_eq_true, if_false]
  repeat' split
  all_goals first
    | rfl
    | simp_all

theorem val_next_of_fills (hs : s.Shaped) (ha : s.Accepts i)
    (hx : s.fills i x = true) : ((s.next i).entry x).val = true :=
  val_next_eq_true.mpr ⟨removes_of_vacant (ha.normal (fills_eq_true.mp hx).2)
    (hs.val_of_fills ha hx), .inl hx⟩

/-- The part of the window in row `r`. -/
theorem window_filter_row (hs : s.Shaped) (r : RobRow c) :
    (s.window.filter fun u => decide ((robSlot (c := c) u.robIdx).1 = r)) =
      ((List.finRange c.decodeWidth).filter fun w => (s.entry (r, w)).val).map
        fun w => (s.entry (r, w)).uop := by
  have hslots : (s.slots.filter fun x => decide (x.1 = r)) =
      (rowEntries c.decodeWidth r).filter fun x => (s.entry x).val := by
    rw [← occupied_row _ s.head r, slots]
    exact (occupied_filter fun x => Bool.and_comm _ _).symm
  have hfilter : s.slots.filter ((fun u => decide ((robSlot (c := c) u.robIdx).1 = r)) ∘
      fun x => (s.entry x).uop) = s.slots.filter fun x => decide (x.1 = r) := by
    refine List.filter_congr fun x hx => ?_
    rw [Function.comp_apply, hs.addressed x (mem_slots.mp hx)]
  rw [window, List.filter_map, hfilter, hslots, rowEntries, List.filter_map, List.map_map]
  rfl

/-- **A cycle of the window.** -/
theorem Shaped.window_next (hs : s.Shaped) (ha : s.Accepts i) :
    (s.next i).window = (s.window.filter fun u => !s.removes i (robSlot u.robIdx)).map
      (RobUop.resolve i.brinfo) ++ newUops i := by
  rw [window, hs.slots_next ha, List.map_append]
  congr 1
  · rw [window, List.filter_map, List.map_map]
    have hfilter : s.slots.filter ((fun u => !s.removes i (robSlot u.robIdx)) ∘ fun x =>
        (s.entry x).uop) = s.slots.filter fun x => !s.removes i x := by
      refine List.filter_congr fun x hx => ?_
      rw [Function.comp_apply, hs.addressed x (mem_slots.mp hx)]
    rw [hfilter]
    refine List.map_congr_left fun x hx => ?_
    obtain ⟨hx, hkeep⟩ := List.mem_filter.mp hx
    exact uop_next_of_stays hs ha (mem_slots.mp hx) (by simpa using hkeep)
  · rw [newUops, rowEntries, List.filter_map, List.map_map]
    have hfilter : (List.finRange c.decodeWidth).filter (s.fills i ∘ Prod.mk s.tail) =
        (List.finRange c.decodeWidth).filter i.disMask :=
      List.filter_congr fun w _ => by simp [fills]
    rw [hfilter]
    refine List.map_congr_left fun w hw => ?_
    exact uop_next_of_fills hs ha (fills_eq_true.mpr ⟨rfl, (List.mem_filter.mp hw).2⟩)

/-! ### Where the tail goes -/

theorem state_of_dispatches (ha : s.Accepts i) (hd : i.dispatches = true) :
    s.state = .normal ∧ s.tail + 1 ≠ s.head ∧ i.mispredict = none := by
  obtain ⟨w, hw⟩ := orR_eq_true.mp hd
  exact ⟨ha.normal hw, (ready_eq_true.mp (ha.ready w hw)).2, ha.noMispredict w hw⟩

/-- Outside a rollback: everything valid after a cycle lies before the new tail, counted from the
old head. -/
theorem Shaped.lt_nextTail (hs : s.Shaped) (ha : s.Accepts i) (hstate : s.state ≠ .rollback)
    (hx : ((s.next i).entry x).val = true) :
    rowPlace s.head x.1 < rowPlace s.head (s.nextTail i) := by
  obtain ⟨hkeep, hx⟩ := val_next_eq_true.mp hx
  rw [nextTail, if_neg fun h => hstate h.1]
  cases hmis : i.mispredict with
  | some b =>
    have hnofill : s.fills i x = false := by
      rw [← Bool.not_eq_true, fills_eq_true]
      intro h
      have := ha.noMispredict _ h.2
      rw [hmis] at this
      cases this
    have hval : (s.entry x).val = true := hx.resolve_left (by simp [hnofill])
    have hb := hs.lt_tail (.inl hstate) _ (ha.branch b hmis)
    have hle : rowPlace s.head x.1 ≤ rowPlace s.head (robSlot b.robIdx).1 := by
      by_contra hgt
      have hkill := (ha.kills b hmis x hval).mpr (place_lt_of_rowPlace_lt (not_le.mp hgt))
      rw [(removes_eq_false.mp hkeep).2.1] at hkill
      cases hkill
    have htail := rowPlace_lt s.head s.tail
    dsimp only
    rw [rowPlace_succ (by omega)]
    exact Nat.lt_succ_of_le hle
  | none =>
    dsimp only
    split
    · rename_i hd
      rw [rowPlace_succ (rowPlace_succ_lt (state_of_dispatches ha hd).2.1)]
      refine Nat.lt_succ_of_le ?_
      rcases hx with hfill | hval
      · rw [(fills_eq_true.mp hfill).1]
      · exact (hs.lt_tail (.inl hstate) x hval).le
    · rename_i hd
      refine hs.lt_tail (.inl hstate) x (hx.resolve_left ?_)
      rw [fills_eq_true]
      exact fun h => hd (orR_eq_true.mpr ⟨_, h.2⟩)

/-- Outside a rollback: no row before the new tail is empty, unless it is the head row that was just
left behind. -/
theorem Shaped.filled_next (hs : s.Shaped) (ha : s.Accepts i) (hstate : s.state ≠ .rollback)
    {r : RobRow c} (hr : rowPlace s.head r < rowPlace s.head (s.nextTail i))
    (hdone : s.headDone = true → r ≠ s.head) : ∃ w, ((s.next i).entry (r, w)).val = true := by
  have hnoroll : ∀ x, s.rollsBack x = false := fun x => by
    rw [← Bool.not_eq_true, rollsBack_eq_true]
    exact fun h => hstate h.1
  -- some entry of the row does not commit
  have hstays : rowPlace s.head r < rowPlace s.head s.tail →
      ∃ w, (s.entry (r, w)).val = true ∧ s.commits (r, w) = false := by
    intro hlt
    by_contra hall
    rw [not_exists] at hall
    have hcom : ∀ w, (s.entry (r, w)).val = true → s.commits (r, w) = true := fun w hw => by
      by_contra hno
      exact hall w ⟨hw, by simpa using hno⟩
    obtain ⟨w, hw⟩ := hs.filled hstate r hlt
    obtain ⟨hhead, hwc⟩ := commits_eq_true.mp (hcom w hw)
    dsimp only at hhead hwc
    refine hdone (headDone_eq_true.mpr ⟨⟨w, hwc⟩, fun v => ?_⟩) hhead
    rw [Bool.eq_iff_iff]
    refine ⟨fun h => (willCommit_eq_true.mp h).2.1, fun h => ?_⟩
    rw [headVal, ← hhead] at h
    exact (commits_eq_true.mp (hcom v h)).2
  have hnext : ∀ x, (s.entry x).val = true → s.commits x = false → s.brKills i x = false →
      ((s.next i).entry x).val = true := fun x hval hcom hkill =>
    val_next_eq_true.mpr ⟨removes_eq_false.mpr ⟨hcom, hkill, hnoroll x⟩, .inr hval⟩
  rw [nextTail, if_neg fun h => hstate h.1] at hr
  cases hmis : i.mispredict with
  | some b =>
    rw [hmis] at hr
    dsimp only at hr
    have hb := hs.lt_tail (.inl hstate) _ (ha.branch b hmis)
    have htail := rowPlace_lt s.head s.tail
    rw [rowPlace_succ (by omega)] at hr
    rcases eq_or_lt_of_le (Nat.le_of_lt_succ hr) with heq | hlt
    · -- the row of the branch keeps the branch
      refine ⟨(robSlot b.robIdx).2, ?_⟩
      have hslot : (r, (robSlot (c := c) b.robIdx).2) = robSlot b.robIdx :=
        Prod.ext (rowPlace_inj heq) rfl
      rw [hslot]
      refine hnext _ (ha.branch b hmis) (ha.waits b hmis) ?_
      rw [← Bool.not_eq_true, ha.kills b hmis _ (ha.branch b hmis)]
      exact lt_irrefl _
    · obtain ⟨w, hval, hcom⟩ := hstays (hlt.trans hb)
      refine ⟨w, hnext (r, w) hval hcom ?_⟩
      rw [← Bool.not_eq_true, ha.kills b hmis _ hval]
      exact (place_lt_of_rowPlace_lt (x := (r, w)) hlt).not_gt
  | none =>
    have hnokill : ∀ x, s.brKills i x = false := by
      intro x
      rw [RobInput.mispredict, Option.filter_eq_none_iff] at hmis
      rw [← Bool.not_eq_true, brKills, Bool.and_eq_true, isKilledByBranch_eq_true]
      rintro ⟨_, b, hb, hm, _⟩
      exact hmis b hb hm
    rw [hmis] at hr
    dsimp only at hr
    by_cases hlt : rowPlace s.head r < rowPlace s.head s.tail
    · obtain ⟨w, hval, hcom⟩ := hstays hlt
      exact ⟨w, hnext (r, w) hval hcom (hnokill _)⟩
    · -- only a row that is filled lies past the old tail
      split at hr
      · rename_i hd
        obtain ⟨hnormal, hfull, _⟩ := state_of_dispatches ha hd
        rw [rowPlace_succ (rowPlace_succ_lt hfull)] at hr
        have hrow : r = s.tail :=
          rowPlace_inj (Nat.le_antisymm (Nat.le_of_lt_succ hr) (not_lt.mp hlt))
        obtain ⟨w, hw⟩ := orR_eq_true.mp hd
        exact ⟨w, val_next_of_fills hs ha (fills_eq_true.mpr ⟨hrow, hw⟩)⟩
      · exact absurd hr hlt

theorem Shaped.nextTail_ne_head (hs : s.Shaped) (ha : s.Accepts i) (hdone : s.headDone = true) :
    s.nextTail i ≠ s.head := by
  obtain ⟨w, hw⟩ := (headDone_eq_true.mp hdone).1
  have hcom : s.commits (s.head, w) = true := commits_eq_true.mpr ⟨rfl, hw⟩
  have hstate := not_rollback_of_commits hcom
  rw [nextTail, if_neg fun h => hstate h.1]
  cases hmis : i.mispredict with
  | some b =>
    intro heq
    have hb := hs.lt_tail (.inl hstate) _ (ha.branch b hmis)
    have htail := rowPlace_lt s.head s.tail
    have hsucc := rowPlace_succ (h := s.head) (r := (robSlot (c := c) b.robIdx).1) (by omega)
    dsimp only at heq
    rw [heq, rowPlace_self] at hsucc
    exact Nat.succ_ne_zero _ hsucc.symm
  | none =>
    dsimp only
    split
    · rename_i hd
      exact (state_of_dispatches ha hd).2.1
    · exact hs.tail_ne_head hcom

/-! ### Rollback -/

theorem willCommit_of_rollback (h : s.state = .rollback) (w : Bank c) : s.willCommit w = false := by
  rw [← Bool.not_eq_true, willCommit_eq_true]
  rintro ⟨hs, _⟩
  rw [h] at hs
  rcases hs with hs | hs <;> cases hs

theorem head_next_of_rollback (h : s.state = .rollback) : (s.next i).head = s.head := by
  have hnodone : s.headDone = false := by
    rw [← Bool.not_eq_true, headDone_eq_true]
    rintro ⟨⟨w, hw⟩, _⟩
    rw [willCommit_of_rollback h] at hw
    cases hw
  show (if s.headDone then _ else _) = _
  rw [hnodone]
  rfl

theorem flush_next_of_rollback (h : s.state = .rollback) : (s.next i).flushPipeline = false := by
  have hnothrow : s.exceptionThrown = false := by
    rw [← Bool.not_eq_true, exceptionThrown_eq_true]
    rintro ⟨hs, _⟩
    rw [h] at hs
    rcases hs with hs | hs <;> cases hs
  show s.flushVal = false
  rw [flushVal, hnothrow, Bool.false_or, ← Bool.not_eq_true, orR_eq_true]
  rintro ⟨w, hw⟩
  rw [willCommit_of_rollback h] at hw
  cases hw

theorem nextState_rollback (h : s.nextState i = .rollback) :
    s.state = .rollback ∨ s.exceptionThrown = true := by
  rw [nextState] at h
  cases hs : s.state with
  | reset => simp [hs] at h
  | rollback => exact .inl rfl
  | normal =>
    rw [hs] at h
    dsimp only at h
    split at h
    · exact .inr ‹_›
    · split at h <;> cases h
  | waitTillEmpty =>
    rw [hs] at h
    dsimp only at h
    split at h
    · exact .inr ‹_›
    · split at h <;> cases h

theorem nextState_of_exceptionThrown (h : s.exceptionThrown = true) :
    s.nextState i = .rollback := by
  rw [nextState]
  rcases (exceptionThrown_eq_true.mp h).1 with hs | hs
  · simp [hs, h]
  · simp [hs, h]

theorem nextState_ne_reset : s.nextState i ≠ .reset := by
  rw [nextState]
  cases s.state with
  | reset => simp
  | rollback =>
    dsimp only
    split <;> simp
  | normal =>
    dsimp only
    split_ifs <;> simp
  | waitTillEmpty =>
    dsimp only
    split_ifs <;> simp

theorem state_next_of_rollback (h : s.state = .rollback) :
    (s.next i).state = if s.tail = s.head then .normal else .rollback := by
  show s.nextState i = _
  rw [nextState, h]

section

variable (hs : s.Shaped) (ha : s.Accepts i) (h : s.state = .rollback)
include hs ha h

theorem Shaped.lt_tail_next (hx : ((s.next i).entry x).val = true) :
    rowPlace s.head x.1 < rowPlace s.head s.tail := by
  obtain ⟨hkeep, hx⟩ := val_next_eq_true.mp hx
  have hnofill : s.fills i x = false := by
    rw [← Bool.not_eq_true, fills_eq_true]
    intro hfill
    have := ha.normal hfill.2
    rw [h] at this
    cases this
  have hne : x.1 ≠ s.tail := by
    intro heq
    have hno := (removes_eq_false.mp hkeep).2.2
    rw [rollsBack_eq_true.mpr ⟨h, heq⟩] at hno
    cases hno
  refine lt_of_le_of_ne (hs.le_tail x (hx.resolve_left (by simp [hnofill]))) fun heq => ?_
  exact hne (rowPlace_inj heq)

theorem Shaped.vacant_next
    (heq : s.tail = s.head) (x : RobSlot c) : ((s.next i).entry x).val = false := by
  rw [← Bool.not_eq_true]
  intro hx
  have hlt := hs.lt_tail_next ha h hx
  rw [heq, rowPlace_self] at hlt
  exact Nat.not_lt_zero _ hlt

theorem Shaped.nextTail_of_rollback :
    s.nextTail i = if s.tail = s.head then s.head else s.tail - 1 := by
  by_cases heq : s.tail = s.head
  · have hmis : i.mispredict = none := by
      by_contra hmis
      obtain ⟨b, hb⟩ := Option.ne_none_iff_exists'.mp hmis
      have hlt := hs.lt_tail (ha.early b hb) _ (ha.branch b hb)
      rw [heq, rowPlace_self] at hlt
      exact Nat.not_lt_zero _ hlt
    have hnodis : i.dispatches = false := by
      rw [← Bool.not_eq_true]
      intro hd
      have := (state_of_dispatches ha hd).1
      rw [h] at this
      cases this
    rw [nextTail, if_neg fun hne => hne.2 heq, hmis, if_pos heq, ← heq]
    simp [hnodis]
  · rw [nextTail, if_pos ⟨h, heq⟩, if_neg heq]

end

/-! ### The layout is kept -/

/-- **The layout is kept.** -/
theorem Shaped.next (hs : s.Shaped) (ha : s.Accepts i) : (s.next i).Shaped := by
  have haddr : ∀ x, ((s.next i).entry x).val = true →
      robSlot ((s.next i).entry x).uop.robIdx = x := by
    intro x hx
    obtain ⟨hkeep, hx⟩ := val_next_eq_true.mp hx
    by_cases hfill : s.fills i x = true
    · rw [uop_next_of_fills hs ha hfill, ha.robIdx x.2 (fills_eq_true.mp hfill).2,
        ← (fills_eq_true.mp hfill).1]
    · rw [uop_next_of_stays hs ha (hx.resolve_left hfill) hkeep]
      exact hs.addressed x (hx.resolve_left hfill)
  by_cases hstate : s.state = .rollback
  · by_cases heq : s.tail = s.head
    · have hnone := hs.vacant_next ha hstate heq
      refine ⟨fun x hx => ?_, fun _ x hx => ?_, fun _ r hr => ?_, haddr⟩
      · rw [hnone] at hx
        cases hx
      · rw [hnone] at hx
        cases hx
      · change rowPlace (s.next i).head r < rowPlace (s.next i).head (s.nextTail i) at hr
        rw [head_next_of_rollback hstate, hs.nextTail_of_rollback ha hstate, if_pos heq,
          rowPlace_self] at hr
        exact absurd hr (Nat.not_lt_zero _)
    · have hrollback : (s.next i).state = .rollback := by
        rw [state_next_of_rollback hstate, if_neg heq]
      refine ⟨fun x hx => ?_, fun h => ?_, fun h => absurd hrollback h, haddr⟩
      · show rowPlace (s.next i).head x.1 ≤ rowPlace (s.next i).head (s.nextTail i)
        rw [head_next_of_rollback hstate, hs.nextTail_of_rollback ha hstate, if_neg heq,
          rowPlace_pred heq]
        exact Nat.le_sub_one_of_lt (hs.lt_tail_next ha hstate hx)
      · rw [flush_next_of_rollback hstate] at h
        exact absurd hrollback (h.resolve_right Bool.false_ne_true)
  · have hlt : ∀ x, ((s.next i).entry x).val = true →
        rowPlace (s.next i).head x.1 < rowPlace (s.next i).head (s.next i).tail := by
      intro x hx
      have hlt := hs.lt_nextTail ha hstate hx
      show rowPlace (if s.headDone then s.head + 1 else s.head) x.1 <
        rowPlace (if s.headDone then s.head + 1 else s.head) (s.nextTail i)
      split
      · rename_i hdone
        have hrow : x.1 ≠ s.head := fun heq => by
          rw [hs.val_next_of_headDone hdone heq] at hx
          cases hx
        have hpos : rowPlace s.head x.1 ≠ 0 := fun hz => hrow (rowPlace_eq_zero.mp hz)
        rw [rowPlace_head_succ hrow, rowPlace_head_succ (hs.nextTail_ne_head ha hdone)]
        omega
      · exact hlt
    refine ⟨fun x hx => (hlt x hx).le, fun _ => hlt, fun _ r hr => ?_, haddr⟩
    change rowPlace (if s.headDone then s.head + 1 else s.head) r <
      rowPlace (if s.headDone then s.head + 1 else s.head) (s.nextTail i) at hr
    split at hr
    · rename_i hdone
      have hrow : r ≠ s.head := by
        rintro rfl
        rw [rowPlace_head_succ_self] at hr
        have := rowPlace_lt (s.head + 1) (s.nextTail i)
        omega
      have hpos : rowPlace s.head r ≠ 0 := fun hz => hrow (rowPlace_eq_zero.mp hz)
      rw [rowPlace_head_succ hrow, rowPlace_head_succ (hs.nextTail_ne_head ha hdone)] at hr
      exact hs.filled_next ha hstate (by omega) fun _ => hrow
    · rename_i hdone
      exact hs.filled_next ha hstate hr fun h => absurd h hdone

end Rob

end RiscvSoc
