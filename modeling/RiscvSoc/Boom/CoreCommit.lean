import RiscvSoc.Boom.CoreOrder

/-!
# Every micro-op leaves the reorder buffer once

A micro-op that was dispatched is in the buffer, or it is in one of the three histories: committed,
killed by a branch, or rolled back. It is in one place only, once.

That it leaves in the end is a matter of the oldest one. When nothing holds it back any more, it
commits or throws its exception; and an exception empties the buffer row by row. The buffer cannot
make the execution units answer, so this takes runs in which no micro-op is left waiting for ever.
-/

namespace RiscvSoc

variable {c : BOOMConf}

/-- Sorting the elements of a list by three conditions, the first one first. -/
theorem perm_filter_three {α : Type} (p q r : α → Bool) (l : List α) :
    l.Perm (l.filter p ++ l.filter (fun a => !p a && q a) ++
      l.filter (fun a => !p a && !(!p a && q a) && r a) ++
      l.filter fun a => !(p a || q a || r a)) := by
  induction l with
  | nil => exact .nil
  | cons a l ih =>
    cases hp : p a with
    | true => simpa [hp] using ih
    | false =>
      cases hq : q a with
      | true =>
        simp only [List.filter_cons, hp, hq, Bool.false_eq_true, if_false, if_true, Bool.not_false,
          Bool.not_true, Bool.and_self, Bool.and_false, Bool.false_and, Bool.or_true, Bool.true_or]
        rw [List.append_assoc, List.append_assoc] at ih ⊢
        exact (ih.cons a).trans List.perm_middle.symm
      | false =>
        cases hr : r a with
        | true =>
          simp only [List.filter_cons, hp, hq, hr, Bool.false_eq_true, if_false, if_true,
            Bool.not_false, Bool.not_true, Bool.and_self, Bool.and_false, Bool.or_true]
          rw [List.append_assoc] at ih ⊢
          exact (ih.cons a).trans List.perm_middle.symm
        | false =>
          simp only [List.filter_cons, hp, hq, hr, Bool.false_eq_true, if_false, if_true,
            Bool.not_false, Bool.and_false, Bool.or_self]
          exact (ih.cons a).trans List.perm_middle.symm

namespace Core

/-- The micro-ops that have left the buffer. -/
def removed (s : Core c) : List (RobUop c) := s.committed ++ s.killed ++ s.rolledBack

/-- Micro-op number `q` is in the buffer. -/
def InBuffer (s : Core c) (q : ℕ) : Prop := ∃ u ∈ s.rob.window, u.seq = q

/-- Micro-op number `q` is in the buffer and nothing was heard of it: it is busy and has no
exception. -/
def Waiting (s : Core c) (q : ℕ) : Prop := ∃ x, (s.rob.entry x).val = true ∧
  (s.rob.entry x).uop.seq = q ∧ (s.rob.entry x).bsy = true ∧ (s.rob.entry x).exception = false

/-- What holds of the buffer in every reachable state. -/
structure RobInOrder (s : Core c) : Prop where
  /-- A valid micro-op lies between head and tail; the row at the tail is in use only while it is
  rolled back. -/
  between : ∀ x, (s.rob.entry x).val = true → rowPlace s.rob.head x.1 <
    rowPlace s.rob.head s.rob.tail
    ∨ s.rob.state = .rollback ∧ x.1 = s.rob.tail
  /-- From the head on, the valid micro-ops stand in program order. -/
  ordered : ∀ x y, (s.rob.entry x).val = true → (s.rob.entry y).val = true →
    (place s.rob.head x < place s.rob.head y ↔ (s.rob.entry x).uop.seq < (s.rob.entry y).uop.seq)
  /-- What commits is done and has no exception, and what is older commits with it. -/
  commit : ∀ x, s.rob.commits x = true → (s.rob.entry x).val = true ∧ (s.rob.entry x).bsy = false ∧
    (s.rob.entry x).exception = false ∧ ∀ y, (s.rob.entry y).val = true →
      (s.rob.entry y).uop.seq < (s.rob.entry x).uop.seq → s.rob.commits y = true
  /-- Every micro-op that was dispatched is in one place, once. -/
  once : ((s.removed ++ s.rob.window).map (·.seq)).Perm (List.range s.count)
  /-- An exception is that of a micro-op whose elders have all left. -/
  exception : s.rob.exceptionThrown = true → ∃ x, (s.rob.entry x).val = true ∧
    (s.rob.entry x).exception = true ∧ s.rob.comExcCause = some (s.rob.entry x).excCause ∧
    ∀ q < (s.rob.entry x).uop.seq, ∃ u ∈ s.removed, u.seq = q

variable {s : Core c} {i : CoreInput c}

/-! ### In one place, once -/

theorem Ordered.removed_next_perm (ho : s.Ordered) :
    (((s.next i).removed ++ (s.next i).rob.window).map (·.seq)).Perm
      ((s.removed ++ s.rob.window).map (·.seq) ++ (s.newUops i).map (·.seq)) := by
  have hkill : s.rob.window.filter (s.brKills i) = s.rob.window.filter fun u =>
      !s.commits u && s.rob.brKills (s.robInput i) (robSlot u.robIdx) := rfl
  have hroll : s.rob.window.filter (s.rollsBack i) = s.rob.window.filter fun u =>
      !s.commits u && !(!s.commits u && s.rob.brKills (s.robInput i) (robSlot u.robIdx)) &&
        s.rob.rollsBack (robSlot u.robIdx) := rfl
  have hsplit := (perm_filter_three s.commits
    (fun u => s.rob.brKills (s.robInput i) (robSlot u.robIdx))
    (fun u => s.rob.rollsBack (robSlot u.robIdx)) s.rob.window).map (·.seq)
  have hnext : (s.next i).removed = (s.committed ++ s.rob.window.filter s.commits) ++
      (s.killed ++ s.rob.window.filter (s.brKills i)) ++
      (s.rolledBack ++ s.rob.window.filter (s.rollsBack i)) := rfl
  have hmap : ∀ l : List (RobUop c), (l.map (RobUop.resolve s.brinfo)).map (·.seq) =
      l.map (·.seq) := by
    intro l
    rw [List.map_map]
    rfl
  rw [hnext, ho.window_next, hkill, hroll, removed]
  simp only [List.map_append, hmap]
  refine List.perm_iff_count.mpr fun q => ?_
  have hcount := List.perm_iff_count.mp hsplit q
  simp only [List.map_append, List.count_append] at hcount ⊢
  rw [hcount]
  simp only [Rob.removes, commits]
  omega

/-- The numbers given out are those of the micro-ops that were dispatched. -/
theorem reachable_once (h : (machine c).Reachable s) :
    ((s.removed ++ s.rob.window).map (·.seq)).Perm (List.range s.count) := by
  refine Machine.invariant (M := machine c)
    (I := fun s => ((s.removed ++ s.rob.window).map (·.seq)).Perm (List.range s.count)) ?_ ?_ s h
  · intro s hs
    rw [removed, hs.committed, hs.killed, hs.rolledBack, window_of_isReset hs.rob, hs.count]
    exact .nil
  · rintro s i _ hs ih ⟨_, rfl⟩
    refine ((reachable_ordered hs).removed_next_perm).trans ?_
    rw [map_seq_newUops]
    show List.Perm _ (List.range (s.count + (s.newUops i).length))
    rw [List.range_add]
    exact ih.append_right _

/-! ### The order of the buffer -/

theorem reachable_robInOrder (h : (machine c).Reachable s) : s.RobInOrder := by
  have ho := reachable_ordered h
  have honce := reachable_once h
  refine ⟨fun x hx => ?_, fun x y hx hy => (ho.seq_lt_iff hx hy).symm, fun x hx => ?_, honce,
    fun hthrow => ?_⟩
  · by_cases hstate : s.rob.state = .rollback
    · rcases (ho.shaped.le_tail x hx).lt_or_eq with hlt | heq
      · exact .inl hlt
      · exact .inr ⟨hstate, rowPlace_inj heq⟩
    · exact .inl (ho.shaped.lt_tail (.inl hstate) x hx)
  · have hval := Rob.val_of_commits hx
    obtain ⟨hrow, hcom⟩ := Rob.commits_eq_true.mp hx
    obtain ⟨_, hhead, hall⟩ := Rob.willCommit_eq_true.mp hcom
    have hdone := hall x.2 le_rfl hhead
    rw [← hrow] at hdone
    refine ⟨hval, hdone.1, hdone.2, fun y hy hlt => ?_⟩
    exact Rob.commits_of_place_lt hx hy ((ho.seq_lt_iff hy hval).mp hlt)
  · obtain ⟨_, w, hval, hexc, hfirst⟩ := Rob.exceptionThrown_eq_true.mp hthrow
    refine ⟨(s.rob.head, w), hval, hexc, ?_, fun q hq => ?_⟩
    · have henc : priorityEncoder s.rob.canThrowException = some w := by
        refine priorityEncoder_eq_some.mpr ⟨?_, fun v hv => ?_⟩
        · rw [Rob.canThrowException, hval, hexc]
          rfl
        · rw [Rob.canThrowException, hfirst v hv]
          rfl
      rw [Rob.comExcCause, henc]
      rfl
    · -- nothing in the buffer is older
      have holdest : ∀ u ∈ s.rob.window, ¬u.seq < (s.rob.entry (s.rob.head, w)).uop.seq := by
        intro u hu hlt
        obtain ⟨y, hy, rfl⟩ := Rob.mem_window.mp hu
        have hplace := (ho.seq_lt_iff hy hval).mp hlt
        have hle := rowPlace_le_of_place_lt hplace
        rw [rowPlace_self] at hle
        have hrow := rowPlace_eq_zero.mp (Nat.le_zero.mp hle)
        have hno := hfirst y.2 (lt_of_place_lt hplace hrow)
        rw [Rob.headVal, ← hrow] at hno
        exact Bool.false_ne_true (hno.symm.trans hy)
      have hcount := ho.lt_count _ (Rob.mem_window.mpr ⟨_, hval, rfl⟩)
      have hmem : q ∈ (s.removed ++ s.rob.window).map (·.seq) :=
        honce.mem_iff.mpr (List.mem_range.mpr (hq.trans hcount))
      obtain ⟨u, hu, hseq⟩ := List.mem_map.mp hmem
      rcases List.mem_append.mp hu with hu | hu
      · exact ⟨u, hu, hseq⟩
      · exact absurd (hseq ▸ hq) (holdest u hu)

/-! ### The oldest micro-op leaves -/

theorem Ordered.inBuffer_of_next (ho : s.Ordered) {q : ℕ} (hq : q < s.count)
    (h : (s.next i).InBuffer q) : s.InBuffer q := by
  obtain ⟨u', hu', hseq⟩ := h
  rcases ho.mem_window_next.mp hu' with ⟨u, hu, _, rfl⟩ | hnew
  · exact ⟨u, hu, hseq⟩
  · exact absurd (hseq ▸ (seq_newUops hnew).1) hq.not_ge

theorem Ordered.not_inBuffer_next (ho : s.Ordered) {x : RobSlot c} (hx : s.rob.commits x = true) :
    ¬(s.next i).InBuffer (s.rob.entry x).uop.seq := by
  have hval := Rob.val_of_commits hx
  have hwin : (s.rob.entry x).uop ∈ s.rob.window := Rob.mem_window.mpr ⟨x, hval, rfl⟩
  rintro ⟨u', hu', hseq⟩
  rcases ho.mem_window_next.mp hu' with ⟨u, hu, hkeep, rfl⟩ | hnew
  · have hux : u = (s.rob.entry x).uop := ho.eq_of_seq hu hwin hseq
    have hno := ((ho.removes_eq_false hu).mp hkeep).1
    rw [hux, commits, ho.shaped.addressed x hval, hx] at hno
    cases hno
  · exact (hseq ▸ (seq_newUops hnew).1).not_gt (ho.lt_count _ hwin)

theorem Ordered.oldest_at_head (ho : s.Ordered) (hstate : s.rob.state ≠ .rollback) {x : RobSlot c}
    (hx : (s.rob.entry x).val = true)
    (hold : ∀ q < (s.rob.entry x).uop.seq, ¬s.InBuffer q) :
    x.1 = s.rob.head ∧ ∀ v < x.2, s.rob.headVal v = false := by
  have hfirst : ∀ y, (s.rob.entry y).val = true → ¬place s.rob.head y < place s.rob.head x :=
    fun y hy hlt => hold _ ((ho.seq_lt_iff hy hx).mpr hlt) ⟨_, Rob.mem_window.mpr ⟨y, hy, rfl⟩, rfl⟩
  have hrow : x.1 = s.rob.head := by
    by_contra hne
    have hpos : 0 < rowPlace s.rob.head x.1 :=
      Nat.pos_of_ne_zero fun hz => hne (rowPlace_eq_zero.mp hz)
    have htail := ho.shaped.lt_tail (.inl hstate) x hx
    obtain ⟨w, hw⟩ := ho.shaped.filled hstate s.rob.head (by rw [rowPlace_self]; omega)
    refine hfirst _ hw (place_lt_of_rowPlace_lt ?_)
    rwa [rowPlace_self]
  refine ⟨hrow, fun v hv => ?_⟩
  rw [← Bool.not_eq_true]
  intro hvv
  exact hfirst (s.rob.head, v) hvv (place_lt_of_row_eq hrow.symm hv)

/-! ### Runs -/

variable {st : ℕ → Core c} {lab : ℕ → CoreInput c}

section

variable (h : (machine c).Run st lab)
include h

theorem run_next (t : ℕ) : st (t + 1) = (st t).next (lab t) :=
  (h.step t).2

theorem count_mono {t t' : ℕ} (htt : t ≤ t') :
    (st t).count ≤ (st t').count := by
  induction t', htt using Nat.le_induction with
  | base => exact le_rfl
  | succ t' _ ih =>
    rw [run_next h]
    exact ih.trans (Nat.le_add_right _ _)

theorem inBuffer_of_le {t t' q : ℕ} (htt : t ≤ t') (hq : q < (st t).count)
    (hin : (st t').InBuffer q) : (st t).InBuffer q := by
  induction t', htt using Nat.le_induction with
  | base => exact hin
  | succ t' htt ih =>
    rw [run_next h] at hin
    exact ih ((reachable_ordered (h.reachable t')).inBuffer_of_next
      (hq.trans_le (count_mono h htt)) hin)

/-- A rollback empties the buffer: the tail comes one row nearer to the head in every cycle. -/
theorem rollback_ends {t : ℕ} (hroll : (st t).rob.state = .rollback) :
    ∃ t' ≥ t, ∀ q, ¬(st t').InBuffer q := by
  induction hn : rowPlace (st t).rob.head (st t).rob.tail generalizing t with
  | zero =>
    have ho := reachable_ordered (h.reachable t)
    have htail : (st t).rob.tail = (st t).rob.head := rowPlace_eq_zero.mp hn
    refine ⟨t + 1, Nat.le_succ t, ?_⟩
    rintro q ⟨u, hu, _⟩
    rw [run_next h] at hu
    obtain ⟨x, hx, _⟩ := Rob.mem_window.mp hu
    have hval : (((st t).next (lab t)).rob.entry x).val = false :=
      ho.shaped.vacant_next ho.accepts hroll htail x
    rw [hval] at hx
    cases hx
  | succ n ih =>
    have ho := reachable_ordered (h.reachable t)
    have hne : (st t).rob.tail ≠ (st t).rob.head := fun heq => by
      rw [heq, rowPlace_self] at hn
      cases hn
    have hstate : (st (t + 1)).rob.state = .rollback := by
      rw [run_next h]
      show (Rob.next _ _).state = _
      rw [Rob.state_next_of_rollback hroll, if_neg hne]
    have hplace : rowPlace (st (t + 1)).rob.head (st (t + 1)).rob.tail = n := by
      rw [run_next h]
      show rowPlace (Rob.next _ _).head (Rob.nextTail _ _) = n
      rw [Rob.head_next_of_rollback hroll, ho.shaped.nextTail_of_rollback ho.accepts hroll,
        if_neg hne, rowPlace_pred hne, hn, Nat.add_sub_cancel]
    obtain ⟨t', ht', hempty⟩ := ih hstate hplace
    exact ⟨t', (Nat.le_succ t).trans ht', hempty⟩

end

/-- No micro-op is left waiting for ever. -/
def Answered (st : ℕ → Core c) : Prop := ∀ q t, ∃ t' ≥ t, ¬(st t').Waiting q

/-- The oldest micro-op leaves: once it is answered it commits, or its exception is thrown. -/
theorem oldest_leaves (h : (machine c).Run st lab) (hfair : Answered st) {t q : ℕ}
    (hq : q < (st t).count) (hold : ∀ q' < q, ¬(st t).InBuffer q') :
    ∃ t' ≥ t, ¬(st t').InBuffer q := by
  by_contra hstay
  have hstay : ∀ t' ≥ t, (st t').InBuffer q := fun t' ht' => by
    by_contra hno
    exact hstay ⟨t', ht', hno⟩
  obtain ⟨t₁, ht₁, hdone⟩ := hfair q t
  have ho := reachable_ordered (h.reachable t₁)
  have hend : ∀ t' ≥ t, (st t').rob.state ≠ .rollback := by
    intro t' ht' hroll
    obtain ⟨t'', ht'', hempty⟩ := rollback_ends h hroll
    exact hempty q (hstay t'' (ht'.trans ht''))
  obtain ⟨u, hu, rfl⟩ := hstay t₁ ht₁
  obtain ⟨x, hx, rfl⟩ := Rob.mem_window.mp hu
  have hold₁ : ∀ q' < ((st t₁).rob.entry x).uop.seq, ¬(st t₁).InBuffer q' := fun q' hq' hin =>
    hold q' hq' (inBuffer_of_le h ht₁ (hq'.trans hq) hin)
  obtain ⟨hrow, hfirst⟩ := ho.oldest_at_head (hend t₁ ht₁) hx hold₁
  have hhead : (st t₁).rob.headVal x.2 = true := by
    rw [Rob.headVal, ← hrow]
    exact hx
  have hstate : (st t₁).rob.state = .normal ∨ (st t₁).rob.state = .waitTillEmpty := by
    cases hs : (st t₁).rob.state with
    | normal => exact .inl rfl
    | waitTillEmpty => exact .inr rfl
    | rollback => exact absurd hs (hend t₁ ht₁)
    | reset =>
      have hlt := ho.shaped.lt_tail (.inl (hend t₁ ht₁)) x hx
      rw [ho.reset hs, rowPlace_self] at hlt
      exact absurd hlt (Nat.not_lt_zero _)
  cases hexc : ((st t₁).rob.entry x).exception with
  | true =>
    have hthrow : (st t₁).rob.exceptionThrown = true := by
      refine Rob.exceptionThrown_eq_true.mpr ⟨hstate, x.2, hhead, ?_, hfirst⟩
      rw [← hrow]
      exact hexc
    refine hend (t₁ + 1) (ht₁.trans (Nat.le_succ t₁)) ?_
    rw [run_next h]
    exact Rob.nextState_of_exceptionThrown hthrow
  | false =>
    have hbsy : ((st t₁).rob.entry x).bsy = false := by
      rw [← Bool.not_eq_true]
      exact fun hbsy => hdone ⟨x, hx, rfl, hbsy, hexc⟩
    have hcom : (st t₁).rob.commits x = true := by
      refine Rob.commits_eq_true.mpr ⟨hrow, Rob.willCommit_eq_true.mpr ⟨hstate, hhead, ?_⟩⟩
      intro v hv hvv
      rcases hv.lt_or_eq with hlt | rfl
      · rw [hfirst v hlt] at hvv
        cases hvv
      · rw [← hrow]
        exact ⟨hbsy, hexc⟩
    have hgone := ho.not_inBuffer_next (i := lab t₁) hcom
    rw [← run_next h] at hgone
    exact hgone (hstay (t₁ + 1) (ht₁.trans (Nat.le_succ t₁)))

/-- Every micro-op leaves: when its elders have left, it is the oldest one. -/
theorem leaves (h : (machine c).Run st lab) (hfair : Answered st) {t q : ℕ}
    (hq : q < (st t).count) : ∃ t' ≥ t, ¬(st t').InBuffer q := by
  induction q using Nat.strongRecOn generalizing t with
  | ind q ih =>
    have helders : ∀ m ≤ q, ∃ t' ≥ t, ∀ q' < m, ¬(st t').InBuffer q' := by
      intro m hm
      induction m with
      | zero => exact ⟨t, le_rfl, fun q' hq' => absurd hq' (Nat.not_lt_zero q')⟩
      | succ m ihm =>
        obtain ⟨t₁, ht₁, hgone⟩ := ihm (Nat.le_of_succ_le hm)
        have hmt : m < (st t₁).count :=
          (Nat.lt_of_succ_le hm).trans (hq.trans_le (count_mono h ht₁))
        obtain ⟨t₂, ht₂, hm'⟩ := ih m hm hmt
        refine ⟨t₂, ht₁.trans ht₂, fun q' hq' hin => ?_⟩
        rcases Nat.lt_succ_iff_lt_or_eq.mp hq' with hlt | rfl
        · exact hgone q' hlt (inBuffer_of_le h ht₂ (hlt.trans hmt) hin)
        · exact hm' hin
    obtain ⟨t₁, ht₁, hgone⟩ := helders q le_rfl
    obtain ⟨t₂, ht₂, hq'⟩ := oldest_leaves h hfair (hq.trans_le (count_mono h ht₁)) hgone
    exact ⟨t₂, ht₁.trans ht₂, hq'⟩

/-- Micro-op number `q` is removed, once and for good. -/
def LeavesOnce (st : ℕ → Core c) (q : ℕ) : Prop :=
  ∃ t, ∀ t' ≥ t, ((st t').removed.map (·.seq)).count q = 1

theorem leavesOnce (h : (machine c).Run st lab) (hfair : Answered st) {t q : ℕ}
    (hq : q < (st t).count) : LeavesOnce st q := by
  obtain ⟨t₁, ht₁, hgone⟩ := leaves h hfair hq
  refine ⟨t₁, fun t' ht' => ?_⟩
  have hq₁ := hq.trans_le (count_mono h ht₁)
  have hgone' : ¬(st t').InBuffer q := fun hin => hgone (inBuffer_of_le h ht' hq₁ hin)
  have honce := List.perm_iff_count.mp (reachable_once (h.reachable t')) q
  have hzero : ((st t').rob.window.map (·.seq)).count q = 0 := by
    rw [List.count_eq_zero, List.mem_map]
    exact hgone'
  have hone : (List.range (st t').count).count q = 1 :=
    List.count_eq_one_of_mem List.nodup_range
      (List.mem_range.mpr (hq₁.trans_le (count_mono h ht')))
  rw [List.map_append, List.count_append, hzero, Nat.add_zero] at honce
  exact honce.trans hone

/-- **Branch tags and masks are exact.** In every reachable state no two unresolved branches share a
tag, and the bit of one is set in just those micro-ops of the buffer that are younger; outside of a
rollback nothing else is set. A branch that was mispredicted kills what is younger. -/
theorem branchMasks_exact (c : BOOMConf) :
    (∀ s : Core c, (machine c).Reachable s → (s.pending.map (·.brTag)).Nodup ∧
      (∀ t, s.branchMask t = true ↔ ∃ b ∈ s.pending, b.brTag = t) ∧
      (∀ u ∈ s.rob.window, ∀ b ∈ s.pending, u.brMask b.brTag = true ↔ b.seq < u.seq) ∧
      (s.rob.state ≠ .rollback → ∀ u ∈ s.rob.window, ∀ t, u.brMask t = true →
        ∃ b ∈ s.pending, b.brTag = t)) ∧
    ∀ (s : Core c) (i : CoreInput c), (machine c).Reachable s → ∀ u ∈ s.rob.window,
      (s.rob.brKills (s.robInput i) (robSlot u.robIdx) = true ↔
        ∃ r, s.mispredicted r ∧ r.seq < u.seq) := by
  refine ⟨fun s h => ?_, fun s i h u hu => ?_⟩
  · have ho := reachable_ordered h
    exact ⟨ho.nodupTags, ho.branchMask, ho.brMask, fun hroll u hu t ht =>
      (ho.branchMask t).mp (ho.brMask_le hroll u hu t ht)⟩
  · have ho := reachable_ordered h
    rw [← ho.killed_iff hu]
    obtain ⟨x, hx, rfl⟩ := Rob.mem_window.mp hu
    rw [ho.shaped.addressed x hx, Rob.brKills, hx, Bool.true_and]
    rfl

/-- **The reorder buffer keeps program order.** In every reachable state the buffer is in order,
what commits is done and the oldest, and an exception is that of the oldest micro-op; and in every
run in which no micro-op is left waiting for ever, each one that is dispatched leaves exactly
once. -/
theorem rob_order (c : BOOMConf) : (∀ s, (machine c).Reachable s → s.RobInOrder) ∧
    ∀ st lab, (machine c).Run st lab → Answered st →
      ∀ t, ∀ q < (st t).count, LeavesOnce st q :=
  ⟨fun _ hs => reachable_robInOrder hs, fun _ _ h hfair _ _ hq => leavesOnce h hfair hq⟩

end Core

end RiscvSoc
