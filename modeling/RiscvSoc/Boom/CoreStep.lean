import Mathlib.Data.List.Perm.Basic
import RiscvSoc.Boom.Core

/-!
# What one cycle of the core dispatches and resolves

The decode stage takes the slots of a bundle in turn, and what one slot does changes the mask and
the stall signal for the next. Here the loop is read once: what holds of a slot that is dispatched,
which tag and which mask it gets, and how it is numbered.
-/

namespace RiscvSoc

variable {c : BOOMConf}

/-- A list without repetitions is numbered by its own positions. -/
theorem map_idxOf_self {α : Type} [DecidableEq α] {l : List α} (h : l.Nodup) :
    l.map (fun a => l.idxOf a) = List.range l.length := by
  refine List.ext_getElem (by simp) fun k hk _ => ?_
  rw [List.getElem_map, List.getElem_range, h.idxOf_getElem]

namespace Core

variable {s : Core c} {i : CoreInput c}

/-! ### The decode stage -/

theorem disMask_eq_willFire (w : Bank c) : s.disMask i w = s.willFire i (s.turn i w) w := rfl

/-- What a slot has passed when it is dispatched. -/
structure Goes (s : Core c) (i : CoreInput c) (w : Bank c) : Prop where
  valid : i.decValids w = true
  unique : (i.decInsts w).isUnique = true → s.rob.empty = true
  ready : s.rob.ready = true
  notFull : branchMaskFull i (s.turn i w) w = false
  noMispredict : s.mispredicts = false
  noFlush : s.rob.flushPipeline = false
  noStall : (s.turn i w).stallNextInst = false

variable {w : Bank c} {m : BrMask c} {t : Fin c.maxBrCount} {u : RobUop c}

theorem goes_of_disMask (h : s.disMask i w = true) : s.Goes i w := by
  rw [disMask_eq_willFire, willFire, goesAhead, Bool.and_eq_true, Bool.and_eq_true,
    Bool.and_eq_true, Bool.not_eq_true', stallMe] at h
  obtain ⟨⟨⟨hvalid, hstall⟩, _⟩, _⟩ := h
  simp only [Bool.or_eq_false_iff, Bool.not_eq_false', hvalid, Bool.true_and] at hstall
  obtain ⟨⟨⟨⟨⟨⟨⟨⟨⟨_, hunique⟩, hready⟩, _⟩, _⟩, hfull⟩, hmis⟩, hflush⟩, hnext⟩, _⟩ := hstall
  refine ⟨hvalid, fun hu => ?_, hready, hfull, hmis, hflush, hnext⟩
  rw [hu, Bool.true_and, Bool.not_eq_false'] at hunique
  exact hunique

theorem turn_succ {k : ℕ} (hk : k < c.decodeWidth) : s.turn i (k + 1) =
    { currBrMask :=
        if isBranch i ⟨k, hk⟩ && s.disMask i ⟨k, hk⟩ then
          Function.update (s.turn i k).currBrMask (newBrTag (s.turn i k).currBrMask) true
        else (s.turn i k).currBrMask
      stallNextInst := s.stallMe i (s.turn i k) ⟨k, hk⟩ ||
        (i.decValids ⟨k, hk⟩ && (i.decInsts ⟨k, hk⟩).isUnique) } := by
  rw [turn, dif_pos hk]
  rfl

theorem stallNextInst_mono {k l : ℕ} (hkl : k ≤ l) (hl : l ≤ c.decodeWidth)
    (h : (s.turn i k).stallNextInst = true) : (s.turn i l).stallNextInst = true := by
  induction l, hkl using Nat.le_induction with
  | base => exact h
  | succ l hkl ih =>
    rw [turn_succ hl]
    have hprev := ih (Nat.le_of_succ_le hl)
    simp [stallMe, hprev]

/-- Nothing is dispatched after an instruction that wants the core for itself. -/
theorem disMask_of_unique {v w : Bank c} (hv : s.disMask i v = true)
    (hu : (i.decInsts v).isUnique = true) (hvw : v < w) : s.disMask i w = false := by
  rw [← Bool.not_eq_true]
  intro hw
  have hstall : (s.turn i (v + 1)).stallNextInst = true := by
    rw [turn_succ v.isLt]
    simp [(goes_of_disMask hv).valid, hu]
  have hnext := stallNextInst_mono (Nat.succ_le_of_lt (Fin.lt_def.mp hvw)) w.isLt.le hstall
  rw [(goes_of_disMask hw).noStall] at hnext
  cases hnext

/-! ### Tags and masks -/

/-- The slot takes a branch tag. -/
def takesTag (s : Core c) (i : CoreInput c) (w : Bank c) : Bool := s.disMask i w && isBranch i w

theorem takesTag_eq_true : s.takesTag i w = true ↔
    s.disMask i w = true ∧ (s.disUops i w).allocatesBrTag = true := by
  rw [takesTag, Bool.and_eq_true, isBranch, Bool.and_eq_true]
  constructor
  · rintro ⟨h, _, hbr⟩
    exact ⟨h, hbr⟩
  · rintro ⟨h, hbr⟩
    exact ⟨h, (goes_of_disMask h).valid, hbr⟩

theorem brTag_disUops (w : Bank c) :
    (s.disUops i w).brTag = newBrTag (s.turn i w).currBrMask := rfl

theorem newBrTag_free (hw : s.takesTag i w = true) :
    (s.turn i w).currBrMask (s.disUops i w).brTag = false := by
  obtain ⟨hdis, hbr⟩ := Bool.and_eq_true_iff.mp hw
  have hfull := (goes_of_disMask hdis).notFull
  rw [branchMaskFull, hbr, Bool.and_true, decide_eq_false_iff_not, not_forall] at hfull
  obtain ⟨t, ht⟩ := hfull
  rw [brTag_disUops, newBrTag]
  cases hp : priorityEncoder fun tag => !(s.turn i w).currBrMask tag with
  | none =>
    have := priorityEncoder_eq_none.mp hp t
    simp only [Bool.not_eq_false'] at this
    exact absurd this ht
  | some tag => simpa using priorityEncoder_some hp

/-- **The mask in front of slot `k`**: the tags taken before the bundle and in it. -/
theorem currBrMask_turn {k : ℕ} (hk : k ≤ c.decodeWidth) (t : Fin c.maxBrCount) :
    (s.turn i k).currBrMask t = true ↔ s.branchMask t = true ∨
      ∃ w : Bank c, (w : ℕ) < k ∧ s.takesTag i w = true ∧ (s.disUops i w).brTag = t := by
  induction k with
  | zero => simp [turn]
  | succ k ih =>
    have hlt : k < c.decodeWidth := hk
    have hsplit : (∃ w : Bank c, (w : ℕ) < k + 1 ∧ s.takesTag i w = true ∧
        (s.disUops i w).brTag = t) ↔
        (∃ w : Bank c, (w : ℕ) < k ∧ s.takesTag i w = true ∧ (s.disUops i w).brTag = t) ∨
          s.takesTag i ⟨k, hlt⟩ = true ∧ (s.disUops i ⟨k, hlt⟩).brTag = t := by
      constructor
      · rintro ⟨w, hw, h⟩
        rcases Nat.lt_succ_iff_lt_or_eq.mp hw with hw | hw
        · exact .inl ⟨w, hw, h⟩
        · exact .inr ((Fin.ext hw : w = ⟨k, hlt⟩) ▸ h)
      · rintro (⟨w, hw, h⟩ | h)
        · exact ⟨w, hw.trans (Nat.lt_succ_self k), h⟩
        · exact ⟨⟨k, hlt⟩, Nat.lt_succ_self k, h⟩
    rw [hsplit, ← or_assoc, ← ih hlt.le, turn_succ hlt]
    have htakes : (isBranch i ⟨k, hlt⟩ && s.disMask i ⟨k, hlt⟩) = s.takesTag i ⟨k, hlt⟩ :=
      Bool.and_comm _ _
    simp only [htakes]
    cases htake : s.takesTag i ⟨k, hlt⟩ with
    | false => simp
    | true =>
      rw [if_pos rfl, Function.update_apply]
      by_cases ht : t = newBrTag (s.turn i k).currBrMask
      · simp [ht, brTag_disUops]
      · simp [ht, brTag_disUops, Ne.symm ht]

theorem brTag_ne {v w : Bank c} (hv : s.takesTag i v = true) (hw : s.takesTag i w = true)
    (hvw : v < w) : (s.disUops i v).brTag ≠ (s.disUops i w).brTag := by
  intro heq
  have hfree := newBrTag_free hw
  rw [(currBrMask_turn w.isLt.le _).mpr (.inr ⟨v, Fin.lt_def.mp hvw, hv, heq⟩)] at hfree
  cases hfree

theorem brTag_inj {v w : Bank c} (hv : s.takesTag i v = true) (hw : s.takesTag i w = true)
    (heq : (s.disUops i v).brTag = (s.disUops i w).brTag) : v = w := by
  rcases lt_trichotomy v w with hlt | h | hgt
  · exact absurd heq (brTag_ne hv hw hlt)
  · exact h
  · exact absurd heq.symm (brTag_ne hw hv hgt)

theorem branchMask_brTag (hw : s.takesTag i w = true) :
    s.branchMask (s.disUops i w).brTag = false := by
  rw [← Bool.not_eq_true]
  intro h
  have hfree := newBrTag_free hw
  rw [(currBrMask_turn w.isLt.le _).mpr (.inl h)] at hfree
  cases hfree

/-- The tag of the branch that is being resolved. -/
def resolvedTag (s : Core c) : Option (Fin c.maxBrCount) := s.brReg.map fun r => r.1.brTag

theorem getNewBrMask_brinfo :
    getNewBrMask s.brinfo m t = true ↔ m t = true ∧ s.resolvedTag ≠ some t := by
  rw [brinfo, resolvedTag]
  cases s.brReg with
  | none => simp [getNewBrMask]
  | some r =>
    show (m t && !decide (t = r.1.brTag)) = true ↔ m t = true ∧ some r.1.brTag ≠ some t
    rw [Bool.and_eq_true, Bool.not_eq_true', decide_eq_false_iff_not, Ne, Option.some.injEq,
      @eq_comm _ t]

/-- The branch that was mispredicted. -/
def mispredicted (s : Core c) (r : RobUop c) : Prop := s.brReg = some (r, true)

theorem mispredict_robInput {b : BrResolutionInfo c} : (s.robInput i).mispredict = some b ↔
    ∃ r, s.mispredicted r ∧ b = brinfoOf (r, true) := by
  show s.brinfo.filter (fun b => b.mispredict) = some b ↔ _
  rw [brinfo, Option.filter_eq_some_iff, Option.map_eq_some_iff]
  constructor
  · rintro ⟨⟨⟨r, m⟩, hr, rfl⟩, hm⟩
    obtain rfl : m = true := hm
    exact ⟨r, hr, rfl⟩
  · rintro ⟨r, hr, rfl⟩
    exact ⟨⟨_, hr, rfl⟩, rfl⟩

theorem isKilledByBranch_brinfo :
    isKilledByBranch s.brinfo m = true ↔ ∃ r, s.mispredicted r ∧ m r.brTag = true := by
  rw [isKilledByBranch_eq_true, brinfo]
  constructor
  · rintro ⟨b, hb, hm, hmatch⟩
    obtain ⟨⟨r, m'⟩, hr, rfl⟩ := Option.map_eq_some_iff.mp hb
    obtain rfl : m' = true := hm
    obtain ⟨t, ht, hmt⟩ := maskMatch_eq_true.mp hmatch
    obtain rfl : t = r.brTag := of_decide_eq_true ht
    exact ⟨r, hr, hmt⟩
  · rintro ⟨r, hr, hmt⟩
    exact ⟨_, Option.map_eq_some_iff.mpr ⟨_, hr, rfl⟩, rfl,
      maskMatch_eq_true.mpr ⟨r.brTag, decide_eq_true rfl, hmt⟩⟩

theorem mispredicts_eq_true : s.mispredicts = true ↔ ∃ r, s.mispredicted r := by
  rw [mispredicts, brinfo]
  simp only [mispredicted]
  rcases s.brReg with _ | ⟨r, m⟩
  · simp
  · cases m <;> simp [brinfoOf]

/-- **The mask of a new micro-op.** -/
theorem brMask_disUops : (s.disUops i w).brMask t = true ↔
    (s.branchMask t = true ∨ ∃ v < w, s.takesTag i v = true ∧ (s.disUops i v).brTag = t) ∧
      s.resolvedTag ≠ some t := by
  have hmask : (s.disUops i w).brMask = getNewBrMask s.brinfo (getNewBrMask s.brinfo
      (getNewBrMask s.brinfo (s.turn i w).currBrMask)) := rfl
  rw [hmask, getNewBrMask_brinfo, getNewBrMask_brinfo, getNewBrMask_brinfo,
    currBrMask_turn w.isLt.le]
  tauto

/-! ### The order of dispatch -/

theorem mem_disSlots : w ∈ s.disSlots i ↔ s.disMask i w = true := by
  simp [disSlots]

theorem pairwise_disSlots : (s.disSlots i).Pairwise (· < ·) :=
  (List.pairwise_lt_finRange _).filter _

theorem newUops_eq : s.newUops i = (s.disSlots i).map (s.disUops i) := rfl

theorem mem_newUops :
    u ∈ s.newUops i ↔ ∃ w, s.disMask i w = true ∧ s.disUops i w = u := by
  rw [newUops_eq, List.mem_map]
  exact exists_congr fun w => and_congr_left fun _ => mem_disSlots

/-- **The new micro-ops are numbered in order.** -/
theorem map_seq_newUops : (s.newUops i).map (·.seq) =
    (List.range (s.newUops i).length).map (s.count + ·) := by
  have hnodup : (s.disSlots i).Nodup := pairwise_disSlots.imp fun h => h.ne
  rw [newUops_eq, List.length_map, ← map_idxOf_self hnodup, List.map_map, List.map_map]
  rfl

theorem seq_newUops (hu : u ∈ s.newUops i) :
    s.count ≤ u.seq ∧ u.seq < s.count + (s.newUops i).length := by
  have hmem : u.seq ∈ (s.newUops i).map (·.seq) := List.mem_map.mpr ⟨u, hu, rfl⟩
  rw [map_seq_newUops, List.mem_map] at hmem
  obtain ⟨k, hk, heq⟩ := hmem
  rw [List.mem_range] at hk
  omega

theorem pairwise_newUops : (s.newUops i).Pairwise fun u v => u.seq < v.seq := by
  have hrange : ((s.newUops i).map (·.seq)).Pairwise (· < ·) := by
    rw [map_seq_newUops, List.pairwise_map]
    exact List.pairwise_lt_range.imp fun h => Nat.add_lt_add_left h _
  rwa [List.pairwise_map] at hrange

theorem seq_disUops_lt {v w : Bank c} (hv : s.disMask i v = true) (hw : s.disMask i w = true) :
    (s.disUops i v).seq < (s.disUops i w).seq ↔ v < w := by
  have hseq := pairwise_newUops (s := s) (i := i)
  rw [newUops_eq, List.pairwise_map] at hseq
  exact (lt_of_pairwise (f := id) (g := fun x => (s.disUops i x).seq) pairwise_disSlots hseq
    (mem_disSlots.mpr hv) (mem_disSlots.mpr hw)).symm

theorem find?_disSlots_of_lt {q : ℕ} (hq : q < s.count) :
    ((s.disSlots i).find? fun w => decide ((s.disUops i w).seq = q)) = none := by
  refine List.find?_eq_none.mpr fun w hw heq => ?_
  have hseq := (seq_newUops (mem_newUops.mpr ⟨w, mem_disSlots.mp hw, rfl⟩)).1
  rw [of_decide_eq_true heq] at hseq
  exact hq.not_ge hseq

/-- A slot that is dispatched is found by the number of its micro-op. -/
theorem find?_disSlots (hw : s.disMask i w = true) :
    ((s.disSlots i).find? fun v => decide ((s.disUops i v).seq = (s.disUops i w).seq)) =
      some w := by
  cases hfind : (s.disSlots i).find? fun v =>
      decide ((s.disUops i v).seq = (s.disUops i w).seq) with
  | none =>
    have hno := List.find?_eq_none.mp hfind w (mem_disSlots.mpr hw)
    simp at hno
  | some v =>
    have hv := mem_disSlots.mp (List.mem_of_find?_eq_some hfind)
    have heq : (s.disUops i v).seq = (s.disUops i w).seq := by
      simpa using List.find?_some hfind
    rcases lt_trichotomy v w with hlt | rfl | hgt
    · exact absurd heq ((seq_disUops_lt hv hw).mpr hlt).ne
    · rfl
    · exact absurd heq ((seq_disUops_lt hw hv).mpr hgt).ne'

/-- Nothing is dispatched while a branch turns out mispredicted or the pipeline is flushed. -/
theorem newUops_of_kill (h : s.mispredicts = true ∨ s.rob.flushPipeline = true ∨
    s.rob.state ≠ .normal) : s.newUops i = [] := by
  rw [List.eq_nil_iff_forall_not_mem]
  intro u hu
  obtain ⟨w, hw, _⟩ := mem_newUops.mp hu
  have hgoes := goes_of_disMask hw
  rcases h with h | h | h
  · rw [hgoes.noMispredict] at h
    cases h
  · rw [hgoes.noFlush] at h
    cases h
  · exact h (Rob.ready_eq_true.mp hgoes.ready).1

/-! ### Unresolved branches -/

/-- The branches that are not resolved yet. -/
def pending (s : Core c) : List (RobUop c) := s.brReg.toList.map Prod.fst ++ s.brs

/-- The new branches. -/
def newBrs (s : Core c) (i : CoreInput c) : List (RobUop c) :=
  (s.newUops i).filter fun u => u.allocatesBrTag

theorem mem_newBrs :
    u ∈ s.newBrs i ↔ ∃ w, s.takesTag i w = true ∧ s.disUops i w = u := by
  rw [newBrs, List.mem_filter, mem_newUops]
  constructor
  · rintro ⟨⟨w, hw, rfl⟩, hbr⟩
    exact ⟨w, takesTag_eq_true.mpr ⟨hw, hbr⟩, rfl⟩
  · rintro ⟨w, hw, rfl⟩
    exact ⟨⟨w, (takesTag_eq_true.mp hw).1, rfl⟩, (takesTag_eq_true.mp hw).2⟩

/-- **The unresolved branches after a cycle**: what is left of those before, and the new ones. -/
theorem pending_next_perm :
    (s.next i).pending.Perm (s.brs.filterMap s.brFilter ++ s.newBrs i) := by
  show ((s.nextBrReg i).toList.map Prod.fst ++
    ((s.brsLeft i).filterMap s.brFilter ++ s.newBrs i)).Perm _
  rw [← List.append_assoc]
  refine List.Perm.append_right _ ?_
  rw [nextBrReg, brsLeft]
  cases i.exe with
  | none => exact .refl _
  | some e =>
    dsimp only
    by_cases hk : e.1 < s.brs.length
    · have hperm := (List.getElem_cons_eraseIdx_perm hk).filterMap s.brFilter
      rw [List.getElem?_eq_getElem hk, Option.bind_some]
      cases hf : s.brFilter s.brs[e.1] with
      | none =>
        rw [List.filterMap_cons_none hf] at hperm
        exact hperm
      | some u =>
        rw [List.filterMap_cons_some hf] at hperm
        exact hperm
    · rw [List.getElem?_eq_none (not_lt.mp hk), List.eraseIdx_of_length_le (not_lt.mp hk)]
      exact .refl _

theorem mem_pending_next : u ∈ (s.next i).pending ↔
    (∃ b ∈ s.brs, s.brFilter b = some u) ∨ u ∈ s.newBrs i := by
  rw [pending_next_perm.mem_iff, List.mem_append, List.mem_filterMap]

theorem brFilter_eq_some {b u : RobUop c} : s.brFilter b = some u ↔
    s.rob.flushPipeline = false ∧ isKilledByBranch s.brinfo b.brMask = false ∧
      b.resolve s.brinfo = u := by
  rw [brFilter]
  cases s.rob.flushPipeline <;> cases isKilledByBranch s.brinfo b.brMask <;> simp

end Core

end RiscvSoc
