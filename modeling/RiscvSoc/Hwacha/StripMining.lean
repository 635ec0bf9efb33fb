import Mathlib.Data.Nat.Find
import RiscvSoc.Hwacha.Sequencer

/-!
# Every element once

The sequencer comes to every slot below the number of banks again and again, and it sends out a
strip there unless the slot has to wait. So an operation is done after as many strips as its vector
needs.
-/

namespace RiscvSoc

namespace Hwacha

namespace Sequencer

variable {cfg : HwachaConfig} {s : Sequencer} {i : SequencerIn} {op : IssueOp} {k : BitVec 3}

/-! ### The writes of an operation -/

theorem foldl_issue (parts : List IssuePart) (slot : SeqSlot) :
    let after := parts.foldl
      (fun slot part => if s.hits cfg k part then slot.issue cfg op part else slot) slot
    after.valid = (slot.valid || parts.any (s.hits cfg k)) ∧
      after.vlen = (if parts.any (s.hits cfg k) then op.vlen else slot.vlen) ∧
      after.active.turbo = (slot.active.turbo ||
        parts.any fun part => s.hits cfg k part && part.active.turbo) ∧
      after.active.any = (slot.active.any ||
        parts.any fun part => s.hits cfg k part && part.active.any) := by
  induction parts generalizing slot with
  | nil => simp
  | cons part parts ih =>
    obtain ⟨hvalid, hvlen, hturbo, hany⟩ :=
      ih (if s.hits cfg k part then slot.issue cfg op part else slot)
    rw [List.foldl_cons]
    cases hhit : s.hits cfg k part with
    | false =>
      rw [hhit, if_neg Bool.false_ne_true] at hvalid hvlen hturbo hany
      simp only [List.any_cons, hhit, Bool.false_or, Bool.false_and, if_neg Bool.false_ne_true]
      exact ⟨hvalid, hvlen, hturbo, hany⟩
    | true =>
      rw [hhit] at hvalid hvlen hturbo hany
      refine ⟨?_, ?_, ?_, ?_⟩
      · simpa [hhit, SeqSlot.issue] using hvalid
      · rw [if_pos rfl] at hvlen
        simpa [hhit, SeqSlot.issue] using hvlen
      · simpa [hhit, SeqSlot.issue, ActiveFlags.or_turbo, Bool.or_assoc] using hturbo
      · simpa [hhit, SeqSlot.issue, ActiveFlags.or_any, Bool.or_assoc] using hany

theorem issued_of_writes (hk : s.writes cfg op k = true) (hfree : (s.slots k).active = .none) :
    (s.issued cfg op k).valid = true ∧ (s.issued cfg op k).vlen = op.vlen ∧
      (s.issued cfg op k).active.turbo = s.turboIn cfg op k ∧
      (s.issued cfg op k).active.any = true := by
  have hfold := @foldl_issue cfg s op k op.kind.parts (s.slots k)
  obtain ⟨hvalid, hvlen, hturbo, hany⟩ := hfold
  have hsome : (op.kind.parts.any fun part => s.hits cfg k part && part.active.any) = true := by
    obtain ⟨part, hmem, hhit⟩ := List.any_eq_true.mp hk
    refine List.any_eq_true.mpr ⟨part, hmem, ?_⟩
    rw [hhit, op.kind.any_of_mem_parts part hmem]
    rfl
  refine ⟨?_, ?_, ?_, ?_⟩
  · exact hvalid.trans (by rw [show op.kind.parts.any (s.hits cfg k) = true from hk, Bool.or_true])
  · exact hvlen.trans (if_pos hk)
  · rw [hfree] at hturbo
    exact hturbo.trans (Bool.false_or _)
  · exact hany.trans (by rw [hsome, Bool.or_true])

theorem issued_of_not_writes (hk : s.writes cfg op k = false) : s.issued cfg op k = s.slots k := by
  have hno : ∀ part ∈ op.kind.parts, s.hits cfg k part = false := by
    intro part hmem
    cases hhit : s.hits cfg k part with
    | false => rfl
    | true => exact absurd (List.any_eq_true.mpr ⟨part, hmem, hhit⟩) (by rw [← writes, hk]; decide)
  rw [issued]
  generalize op.kind.parts = parts at hno
  induction parts with
  | nil => rfl
  | cons part parts ih =>
    rw [List.foldl_cons, hno part List.mem_cons_self, if_neg (by simp)]
    exact ih fun p hp => hno p (List.mem_cons_of_mem _ hp)

/-! ### One cycle of one slot -/

/-- The operation that is issued is not written to slot `k`. -/
def Quiet (cfg : HwachaConfig) (s : Sequencer) (i : SequencerIn) (k : BitVec 3) : Prop :=
  i.issueop.filter (fun op => s.writes cfg op k) = none

theorem Quiet.afterIssue (h : s.Quiet cfg i k) : s.afterIssue cfg i k = s.slots k := by
  rw [Quiet] at h
  rw [Sequencer.afterIssue]
  cases hop : i.issueop with
  | none => rfl
  | some op =>
    refine issued_of_not_writes ?_
    rw [hop] at h
    cases hk : s.writes cfg op k with
    | false => rfl
    | true => simp [Option.filter, hk] at h

theorem quiet_of_valid (hfree : s.Free cfg i) (h : (s.slots k).valid = true) : s.Quiet cfg i k := by
  rw [Quiet]
  cases hop : i.issueop with
  | none => rfl
  | some op =>
    cases hk : s.writes cfg op k with
    | false => simp [Option.filter, hk]
    | true => exact absurd (hfree op hop k hk) (by rw [h]; decide)

variable {g : BitVec 3 → Option SlotLog}

theorem next_of_writes (hfree : s.Free cfg i) (hop : i.issueop = some op)
    (hk : s.writes cfg op k = true) :
    (next cfg s i).slots k = s.issued cfg op k ∧
      note cfg s i g k = some ⟨op.vlen, s.turboIn cfg op k, []⟩ := by
  have hvalid := hfree op hop k hk
  constructor
  · have hnot : ¬ (k = s.ptr ∧ s.emits i = true) := by
      rintro ⟨rfl, hemits⟩
      rw [emits, hvalid, Bool.and_false] at hemits
      cases hemits
    exact (if_neg hnot).trans (by rw [afterIssue, hop])
  · rw [note, hop]
    simp [Option.filter, hk]

theorem next_of_emits (hquiet : s.Quiet cfg i k) (hk : k = s.ptr) (hemits : s.emits i = true) :
    (next cfg s i).slots k = (s.slots k).advance cfg (s.slots k) ∧
      note cfg s i g k = (g k).map fun e => e.emit ((s.slots k).strip cfg) := by
  constructor
  · exact (if_pos ⟨hk, hemits⟩).trans (by rw [hquiet.afterIssue])
  · rw [note, show i.issueop.filter _ = none from hquiet]
    exact if_pos ⟨hk, hemits⟩

theorem next_of_quiet (hquiet : s.Quiet cfg i k) (hnot : ¬ (k = s.ptr ∧ s.emits i = true)) :
    (next cfg s i).slots k = s.slots k ∧ note cfg s i g k = g k := by
  constructor
  · exact (if_neg hnot).trans hquiet.afterIssue
  · rw [note, show i.issueop.filter _ = none from hquiet]
    exact if_neg hnot

/-! ### The invariant -/

/-- What is known of slot `k`. -/
structure SlotInv (cfg : HwachaConfig) (s : Sequencer) (g : BitVec 3 → Option SlotLog)
    (k : BitVec 3) : Prop where
  free : (s.slots k).valid = false → (s.slots k).active = .none
  busy : (s.slots k).valid = true → (s.slots k).active.any = true
  underway : ∀ e, g k = some e → 0 < e.vlen.toNat → (s.slots k).valid = true →
    Underway cfg (s.slots k) e
  done : ∀ e, g k = some e → 0 < e.vlen.toNat → (s.slots k).valid = false → Done cfg (s.slots k) e

theorem advance_cases {slot : SeqSlot} (hany : slot.active.any = true) :
    slot.islast cfg = true ∧ slot.advance cfg slot =
        ⟨false, slot.vlen - (slot.nelements cfg).setWidth 12, false, .none⟩ ∨
      slot.islast cfg = false ∧ slot.advance cfg slot =
        ⟨slot.valid, slot.vlen - (slot.nelements cfg).setWidth 12, false, slot.active⟩ := by
  rw [SeqSlot.advance, if_pos hany]
  cases slot.islast cfg with
  | true => exact .inl ⟨rfl, rfl⟩
  | false => exact .inr ⟨rfl, rfl⟩

theorem SlotInv.step (hb : 0 < cfg.bcnt.toNat) (h : SlotInv cfg s g k) (hfree : s.Free cfg i) :
    SlotInv cfg (next cfg s i) (note cfg s i g) k := by
  by_cases hquiet : s.Quiet cfg i k
  · by_cases hemits : k = s.ptr ∧ s.emits i = true
    · obtain ⟨hslot, hlog⟩ := next_of_emits (g := g) hquiet hemits.1 hemits.2
      have hvalid : (s.slots k).valid = true := by
        rw [hemits.1]
        exact (Bool.and_eq_true_iff.mp hemits.2).2
      have hunder : ∀ e', note cfg s i g k = some e' → 0 < e'.vlen.toNat →
          ∃ e, Underway cfg (s.slots k) e ∧ e' = e.emit ((s.slots k).strip cfg) := by
        intro e' he' hpos
        rw [hlog, Option.map_eq_some_iff] at he'
        obtain ⟨e, he, rfl⟩ := he'
        exact ⟨e, h.underway e he hpos hvalid, rfl⟩
      rcases @advance_cases cfg _ (h.busy hvalid) with ⟨hlast, hadv⟩ | ⟨hlast, hadv⟩
      · rw [hadv] at hslot
        refine ⟨fun _ => by rw [hslot], fun hv => ?_, fun _ _ _ hv => ?_, fun e' he' hpos _ => ?_⟩
        · rw [hslot] at hv
          cases hv
        · rw [hslot] at hv
          cases hv
        · obtain ⟨e, hunder, rfl⟩ := hunder e' he' hpos
          exact hunder.done hb hlast (by rw [hslot])
      · rw [hadv] at hslot
        refine ⟨fun hv => ?_, fun _ => ?_, fun e' he' hpos _ => ?_, fun _ _ _ hv => ?_⟩
        · rw [hslot] at hv
          exact absurd (hvalid.symm.trans hv) (by decide)
        · rw [hslot]
          exact h.busy hvalid
        · obtain ⟨e, hunder, rfl⟩ := hunder e' he' hpos
          exact (hunder.step hb hlast (by rw [hslot]) (by rw [hslot])).1
        · rw [hslot] at hv
          exact absurd (hvalid.symm.trans hv) (by decide)
    · obtain ⟨hslot, hlog⟩ := next_of_quiet (g := g) hquiet hemits
      refine ⟨?_, ?_, ?_, ?_⟩ <;> rw [hslot]
      · exact h.free
      · exact h.busy
      · rw [hlog]
        exact h.underway
      · rw [hlog]
        exact h.done
  · obtain ⟨op, hop⟩ := Option.ne_none_iff_exists'.mp hquiet
    obtain ⟨hop, hk⟩ := Option.filter_eq_some_iff.mp hop
    obtain ⟨hslot, hlog⟩ := next_of_writes (g := g) hfree hop hk
    obtain ⟨hvalid, hvlen, hturbo, hany⟩ := issued_of_writes hk (h.free (hfree op hop k hk))
    refine ⟨fun hv => ?_, fun _ => ?_, fun e he hpos _ => ?_, fun _ _ _ hv => ?_⟩
    · rw [hslot, hvalid] at hv
      cases hv
    · rw [hslot]
      exact hany
    · rw [hlog, Option.some.injEq] at he
      subst he
      rw [hslot]
      refine ⟨hturbo, by rw [hvlen]; exact hpos, ?_, fun r hr => absurd hr List.not_mem_nil, 0, ?_,
        .inl rfl⟩
      · rw [hvlen]
        exact Nat.zero_add _
      · exact (Nat.zero_mul _).symm
    · rw [hslot, hvalid] at hv
      cases hv

theorem slotInv (hb : 0 < cfg.bcnt.toNat) (x : Sequencer × (BitVec 3 → Option SlotLog))
    (h : (machine cfg).Reachable x) : ∀ k, SlotInv cfg x.1 x.2 k := by
  refine Machine.invariant (I := fun x => ∀ k, SlotInv cfg x.1 x.2 k) ?_ ?_ x h
  · rintro ⟨s, g⟩ ⟨hs, rfl⟩ k
    refine ⟨fun _ => hs.active k, fun hv => ?_, fun e he => ?_, fun e he => ?_⟩
    · exact absurd ((hs.valid k).symm.trans hv) (by decide)
    · cases he
    · cases he
  · rintro ⟨s, g⟩ i ⟨s', g'⟩ - hinv ⟨hfree, rfl, rfl⟩ k
    exact (hinv k).step hb hfree

/-! ### Going around -/

theorem toNat_ptrIncr {ptr : BitVec 3} (hptr : ptr.toNat < cfg.bcnt.toNat) :
    (ptrIncr ptr 1 cfg.bcnt).toNat = (ptr.toNat + 1) % min cfg.bcnt.toNat 8 := by
  have hp := ptr.isLt
  have hb := cfg.bcnt.isLt
  have haptr : (ptr.setWidth 4 + BitVec.ofNat 4 1).toNat = ptr.toNat + 1 := by
    rw [BitVec.toNat_add, BitVec.toNat_setWidth, BitVec.toNat_ofNat]
    omega
  have hmod : (ptr.toNat + 1) % min cfg.bcnt.toNat 8 =
      if ptr.toNat + 1 = min cfg.bcnt.toNat 8 then 0 else ptr.toNat + 1 := by
    split
    · rename_i h
      rw [h, Nat.mod_self]
    · exact Nat.mod_eq_of_lt (by omega)
  rw [hmod, ptrIncr, BitVec.toNat_setWidth]
  split
  · rename_i hlt
    have hlt' : ptr.toNat + 1 < cfg.bcnt.toNat := haptr ▸ hlt
    rw [haptr]
    split <;> omega
  · rename_i hnot
    have hnot' : ¬ ptr.toNat + 1 < cfg.bcnt.toNat :=
      fun h => hnot (BitVec.lt_def.mpr (by rw [haptr]; exact h))
    rw [BitVec.toNat_sub, haptr]
    split <;> omega

section Run

variable {x : ℕ → Sequencer × (BitVec 3 → Option SlotLog)} {i : ℕ → SequencerIn}

theorem ptr_eq (hb : 0 < cfg.bcnt.toNat) (hrun : (machine cfg).Run x i) (t : ℕ) :
    (x t).1.ptr.toNat = t % min cfg.bcnt.toNat 8 := by
  have hpos : 0 < min cfg.bcnt.toNat 8 := by omega
  induction t with
  | zero =>
    rw [hrun.init.1.ptr, Nat.zero_mod]
    rfl
  | succ t ih =>
    have hstep : (x (t + 1)).1.ptr = ptrIncr (x t).1.ptr 1 cfg.bcnt := by
      rw [(hrun.step t).2.1]
      rfl
    have hlt : (x t).1.ptr.toNat < cfg.bcnt.toNat := by
      rw [ih]
      exact (Nat.mod_lt t hpos).trans_le (min_le_left _ _)
    rw [hstep, toNat_ptrIncr hlt, ih, Nat.mod_add_mod]

theorem ptr_visits (hb : 0 < cfg.bcnt.toNat) (hrun : (machine cfg).Run x i)
    (hk : k.toNat < cfg.bcnt.toNat) (t : ℕ) : ∃ u ≥ t, (x u).1.ptr = k := by
  have hlt : k.toNat < min cfg.bcnt.toNat 8 := lt_min hk k.isLt
  refine ⟨k.toNat + min cfg.bcnt.toNat 8 * t, ?_, ?_⟩
  · exact (Nat.le_mul_of_pos_left t (by omega)).trans (Nat.le_add_left _ _)
  · apply BitVec.eq_of_toNat_eq
    rw [ptr_eq hb hrun, Nat.add_mul_mod_self_left, Nat.mod_eq_of_lt hlt]

end Run

/-- No slot that the sequencer comes to again and again has to wait for ever. -/
def Fair (x : ℕ → Sequencer × (BitVec 3 → Option SlotLog)) (i : ℕ → SequencerIn) : Prop :=
  ∀ k, (∀ t, ∃ u ≥ t, (x u).1.ptr = k) → ∀ t, ∃ u ≥ t, (x u).1.ptr = k ∧ (i u).stall = false

end Sequencer

/-- The strips of slot `k` from cycle `t` on, up to the first cycle in which the slot is free again,
have `vlen` elements; the last of them says that it is the last one, the others do not, and nothing
is left. -/
def Covered (x : ℕ → Sequencer × (BitVec 3 → Option SlotLog)) (t : ℕ) (k : BitVec 3)
    (vlen : BitVec 12) : Prop :=
  ∃ u > t, (∀ v, t < v → v < u → ((x v).1.slots k).valid = true) ∧
    ((x u).1.slots k).valid = false ∧ ((x u).1.slots k).vlen = 0 ∧
      ∃ e l r, (x u).2 k = some e ∧ e.strips = l ++ [r] ∧ elements e.strips = vlen.toNat ∧
        r.last = true ∧ ∀ r ∈ l, r.last = false

namespace Sequencer

variable {cfg : HwachaConfig} {x : ℕ → Sequencer × (BitVec 3 → Option SlotLog)}
  {i : ℕ → SequencerIn} {t : ℕ} {op : IssueOp} {k : BitVec 3}

theorem run_step (hrun : (machine cfg).Run x i) (t : ℕ) :
    (x t).1.Free cfg (i t) ∧ (x (t + 1)).1 = next cfg (x t).1 (i t) ∧
      (x (t + 1)).2 = note cfg (x t).1 (i t) (x t).2 := hrun.step t

/-- As long as the slot is in use, its log is about the operation. -/
theorem log_of_valid (hrun : (machine cfg).Run x i)
    (hop : (i t).issueop = some op) (hk : (x t).1.writes cfg op k = true) (n : ℕ)
    (hvalid : ∀ v, t < v → v < t + 1 + n → ((x v).1.slots k).valid = true) :
    ∃ e, (x (t + 1 + n)).2 k = some e ∧ e.vlen = op.vlen ∧ e.turbo = (x t).1.turboIn cfg op k := by
  induction n with
  | zero =>
    obtain ⟨hfree, -, hlog⟩ := run_step hrun t
    refine ⟨⟨op.vlen, (x t).1.turboIn cfg op k, []⟩, ?_, rfl, rfl⟩
    rw [Nat.add_zero, hlog]
    exact (next_of_writes hfree hop hk).2
  | succ n ih =>
    obtain ⟨e, he, hvlen, hturbo⟩ := ih fun v hv hlt => hvalid v hv (by omega)
    obtain ⟨hfree, -, hlog⟩ := run_step hrun (t + 1 + n)
    have hquiet := quiet_of_valid hfree (hvalid (t + 1 + n) (by omega) (by omega))
    rw [show t + 1 + (n + 1) = t + 1 + n + 1 by omega, hlog]
    by_cases hemits : k = (x (t + 1 + n)).1.ptr ∧ (x (t + 1 + n)).1.emits (i (t + 1 + n)) = true
    · rw [(next_of_emits hquiet hemits.1 hemits.2).2, he]
      exact ⟨_, rfl, hvlen, hturbo⟩
    · rw [(next_of_quiet hquiet hemits).2]
      exact ⟨e, he, hvlen, hturbo⟩

/-- A slot that the sequencer never comes to stays in use. -/
theorem valid_of_not_visited (hb : 0 < cfg.bcnt.toNat) (hrun : (machine cfg).Run x i)
    (hop : (i t).issueop = some op) (hk : (x t).1.writes cfg op k = true)
    (hnot : ∀ u, (x u).1.ptr ≠ k) (n : ℕ) : ((x (t + 1 + n)).1.slots k).valid = true := by
  induction n with
  | zero =>
    obtain ⟨hfree, hnext, -⟩ := run_step hrun t
    rw [Nat.add_zero, hnext, (next_of_writes (g := (x t).2) hfree hop hk).1]
    exact (issued_of_writes hk ((slotInv hb _ (hrun.reachable t) k).free
      (hfree op hop k hk))).1
  | succ n ih =>
    obtain ⟨hfree, hnext, -⟩ := run_step hrun (t + 1 + n)
    rw [show t + 1 + (n + 1) = t + 1 + n + 1 by omega, hnext,
      (next_of_quiet (g := (x (t + 1 + n)).2) (quiet_of_valid hfree ih)
        fun h => hnot _ h.1.symm).1]
    exact ih

/-- Until the sequencer comes to a slot that does not have to wait, the slot stays as it is. -/
theorem kept_of_waits (hrun : (machine cfg).Run x i) (hvalid : ((x t).1.slots k).valid = true)
    (n : ℕ) (hwaits : ∀ v, t ≤ v → v < t + n → ¬ ((x v).1.ptr = k ∧ (i v).stall = false)) :
    (x (t + n)).1.slots k = (x t).1.slots k ∧ (x (t + n)).2 k = (x t).2 k := by
  induction n with
  | zero => exact ⟨rfl, rfl⟩
  | succ n ih =>
    obtain ⟨hslot, hlog⟩ := ih fun v hv hlt => hwaits v hv (by omega)
    obtain ⟨hfree, hnext, hnote⟩ := run_step hrun (t + n)
    have hquiet := quiet_of_valid hfree (hslot ▸ hvalid)
    have hnot : ¬ (k = (x (t + n)).1.ptr ∧ (x (t + n)).1.emits (i (t + n)) = true) := by
      rintro ⟨hptr, hemits⟩
      have hstall : (i (t + n)).stall = false := by
        simpa using (Bool.and_eq_true_iff.mp hemits).1
      exact hwaits (t + n) (Nat.le_add_right _ _) (by omega) ⟨hptr.symm, hstall⟩
    obtain ⟨hsame, hsame'⟩ := next_of_quiet (g := (x (t + n)).2) hquiet hnot
    rw [← Nat.add_assoc, hnext, hnote, hsame, hsame', hslot, hlog]
    exact ⟨rfl, rfl⟩

section

variable (hb : 0 < cfg.bcnt.toNat) (hrun : (machine cfg).Run x i)
include hb hrun

theorem less_of_visit {e : SlotLog} (he : (x t).2 k = some e) (hpos : 0 < e.vlen.toNat)
    (hvalid : ((x t).1.slots k).valid = true) (hptr : (x t).1.ptr = k)
    (hstall : (i t).stall = false) :
    ((x (t + 1)).1.slots k).valid = false ∨
      ((x (t + 1)).1.slots k).vlen.toNat < ((x t).1.slots k).vlen.toNat ∧
        ∃ r, (x (t + 1)).2 k = some (e.emit r) := by
  obtain ⟨hfree, hnext, hnote⟩ := run_step hrun t
  have hemits : (x t).1.emits (i t) = true := by
    rw [emits, hstall, hptr, hvalid]
    rfl
  have hinv := slotInv hb _ (hrun.reachable t) k
  obtain ⟨hslot, hlog⟩ :=
    next_of_emits (g := (x t).2) (quiet_of_valid hfree hvalid) hptr.symm hemits
  rw [hnext, hnote, hslot, hlog, he]
  rcases @advance_cases cfg _ (hinv.busy hvalid) with ⟨hlast, hadv⟩ | ⟨hlast, hadv⟩
  · exact .inl (by rw [hadv])
  · have hunder := hinv.underway e he hpos hvalid
    exact .inr ⟨(hunder.step hb hlast (by rw [hadv]) (by rw [hadv])).2, _, rfl⟩

/-- A slot that does not have to wait for ever is free some time. -/
theorem eventually_free (hfair : ∀ t, ∃ u ≥ t, (x u).1.ptr = k ∧ (i u).stall = false) (n : ℕ) :
    ∀ t e, (x t).2 k = some e → 0 < e.vlen.toNat → ((x t).1.slots k).vlen.toNat ≤ n →
      ∃ u ≥ t, ((x u).1.slots k).valid = false := by
  induction n with
  | zero =>
    intro t e he hpos hle
    cases hvalid : ((x t).1.slots k).valid with
    | false => exact ⟨t, le_rfl, hvalid⟩
    | true =>
      have hless := ((slotInv hb _ (hrun.reachable t) k).underway e he hpos hvalid).vlen
      omega
  | succ n ih =>
    intro t e he hpos hle
    cases hvalid : ((x t).1.slots k).valid with
    | false => exact ⟨t, le_rfl, hvalid⟩
    | true =>
      -- The first cycle in which the slot sends out a strip.
      obtain ⟨m, ⟨hptr, hstall⟩, hwaits⟩ := Machine.exists_first (hfair t)
      obtain ⟨hslot, hlog⟩ := kept_of_waits hrun hvalid _ hwaits
      rcases less_of_visit hb hrun (hlog.trans he) hpos (by rw [hslot]; exact hvalid) hptr hstall
        with hfree | ⟨hless, r, hlog'⟩
      · exact ⟨_, by omega, hfree⟩
      · rw [hslot] at hless
        obtain ⟨u, hu, hfree⟩ := ih _ _ hlog' hpos (by omega)
        exact ⟨u, by omega, hfree⟩

theorem done_of_visited (hfair : Fair x i) (hop : (i t).issueop = some op) (hv : 0 < op.vlen.toNat)
    (hk : (x t).1.writes cfg op k = true) (hlt : k.toNat < cfg.bcnt.toNat) :
    ∃ u > t, (∀ v, t < v → v < u → ((x v).1.slots k).valid = true) ∧
      ((x u).1.slots k).valid = false ∧ ∃ e, (x u).2 k = some e ∧ e.vlen = op.vlen ∧
        e.turbo = (x t).1.turboIn cfg op k ∧ Done cfg ((x u).1.slots k) e := by
  obtain ⟨e₀, he₀, hvlen₀, -⟩ := log_of_valid hrun hop hk 0 fun v h1 h2 => by omega
  obtain ⟨u₀, hu₀, hfree₀⟩ := eventually_free hb hrun (hfair k (ptr_visits hb hrun hlt)) _
    (t + 1) e₀ he₀ (by rw [hvlen₀]; exact hv) le_rfl
  obtain ⟨n, hfree, hfirst⟩ := Machine.exists_first
    (E := fun v => ((x v).1.slots k).valid = false) ⟨u₀, hu₀, hfree₀⟩
  have hbefore : ∀ v, t < v → v < t + 1 + n → ((x v).1.slots k).valid = true := fun v h1 h2 => by
    simpa using hfirst v h1 h2
  obtain ⟨e, he, hvlen, hturbo⟩ := log_of_valid hrun hop hk n hbefore
  exact ⟨_, by omega, hbefore, hfree, e, he, hvlen, hturbo,
    (slotInv hb _ (hrun.reachable _) k).done e he (by rw [hvlen]; exact hv) hfree⟩

/-- When the slot is free again, its elements were all done if and only if there was no rest. -/
theorem covered_of_noRest (hfair : Fair x i) (hop : (i t).issueop = some op)
    (hv : 0 < op.vlen.toNat) (hk : (x t).1.writes cfg op k = true) (hlt : k.toNat < cfg.bcnt.toNat)
    (hrest : NoRest cfg ((x t).1.turboIn cfg op k) op.vlen) : Covered x t k op.vlen := by
  obtain ⟨u, hu, hbefore, hfree, e, he, hvlen, hturbo, hdone⟩ :=
    done_of_visited hb hrun hfair hop hv hk hlt
  obtain ⟨l, r, hstrips, hlast, hnone⟩ := hdone.last
  have hall : elements e.strips = op.vlen.toNat := by
    rw [← hvlen]
    exact hdone.iff.mpr (by rw [hturbo, hvlen]; exact hrest)
  have hzero : ((x u).1.slots k).vlen.toNat = 0 := by
    have hsum := hdone.vlen
    rw [hvlen] at hsum
    omega
  exact ⟨u, hu, hbefore, hfree, BitVec.eq_of_toNat_eq hzero, e, l, r, he, hstrips, hall, hlast,
    hnone⟩

theorem noRest_of_covered (hop : (i t).issueop = some op) (hv : 0 < op.vlen.toNat)
    (hk : (x t).1.writes cfg op k = true) (h : Covered x t k op.vlen) :
    k.toNat < cfg.bcnt.toNat ∧ NoRest cfg ((x t).1.turboIn cfg op k) op.vlen := by
  obtain ⟨u, hu, hbefore, hfree, -, e, -, -, he, -, hall, -, -⟩ := h
  obtain ⟨n, rfl⟩ : ∃ n, u = t + 1 + n := ⟨u - (t + 1), by omega⟩
  constructor
  · by_contra hge
    have hnot : ∀ w, (x w).1.ptr ≠ k := by
      intro w hw
      have hptr := ptr_eq hb hrun w
      have hmod := Nat.mod_lt w (show 0 < min cfg.bcnt.toNat 8 by omega)
      rw [hw] at hptr
      omega
    have hvalid := valid_of_not_visited hb hrun hop hk hnot n
    rw [hfree] at hvalid
    cases hvalid
  · obtain ⟨e', he', hvlen, hturbo⟩ := log_of_valid hrun hop hk n hbefore
    rw [he', Option.some.injEq] at he
    subst he
    have hdone := (slotInv hb _ (hrun.reachable _) k).done e' he' (by rw [hvlen]; exact hv) hfree
    have hrest := hdone.iff.mp (hall.trans (by rw [hvlen]))
    rwa [hturbo, hvlen] at hrest

end

end Sequencer

/-- **Strips cover the vector**, each slot of the operation once, exactly if the vector does not end
with fewer elements after full strips than a bank takes, and the slot is one that the sequencer
comes to. -/
theorem strips_cover (cfg : HwachaConfig) (hb : 0 < cfg.bcnt.toNat)
    (x : ℕ → Sequencer × (BitVec 3 → Option SlotLog)) (i : ℕ → SequencerIn)
    (hrun : (Sequencer.machine cfg).Run x i) (hfair : Sequencer.Fair x i) (t : ℕ) (op : IssueOp)
    (hop : (i t).issueop = some op) (hv : 0 < op.vlen.toNat) (k : BitVec 3)
    (hk : (x t).1.writes cfg op k = true) :
    Covered x t k op.vlen ↔
      k.toNat < cfg.bcnt.toNat ∧ NoRest cfg ((x t).1.turboIn cfg op k) op.vlen :=
  ⟨Sequencer.noRest_of_covered hb hrun hop hv hk,
    fun h => Sequencer.covered_of_noRest hb hrun hfair hop hv hk h.1 h.2⟩

/-! ### One operation after reset -/

namespace Sequencer

def start : Sequencer := ⟨0, fun _ => ⟨false, 0, false, .none⟩⟩

/-- The operation comes in the first cycle, and nothing ever waits. -/
def alone (op : IssueOp) (t : ℕ) : SequencerIn := ⟨if t = 0 then some op else none, false⟩

/-- The run of one operation. -/
def runOf (cfg : HwachaConfig) (op : IssueOp) : ℕ → Sequencer × (BitVec 3 → Option SlotLog)
  | 0 => (start, fun _ => none)
  | t + 1 =>
    (next cfg (runOf cfg op t).1 (alone op t), note cfg (runOf cfg op t).1 (alone op t)
      (runOf cfg op t).2)

variable (cfg : HwachaConfig) (op : IssueOp)

theorem runOf_run :
    (machine cfg).Run (runOf cfg op) (alone op) where
  init := ⟨⟨rfl, fun _ => rfl, fun _ => rfl⟩, rfl⟩
  step t := by
    refine ⟨?_, rfl, rfl⟩
    intro op' hop k _
    cases t with
    | zero => rfl
    | succ t => cases hop

theorem runOf_fair : Fair (runOf cfg op) (alone op) := by
  intro k hvisits t
  obtain ⟨u, hu, hptr⟩ := hvisits t
  exact ⟨u, hu, hptr, rfl⟩

/-- Eight banks in single precision. -/
def single : HwachaConfig := ⟨8, .single⟩

/-- An operation of the first multiplier with this many elements. -/
def multiply (vlen : BitVec 12) : IssueOp := ⟨.vau1 true, vlen⟩

end Sequencer

/-- Eighteen elements are a strip and two more. -/
theorem strips_cover_eighteen : Covered (Sequencer.runOf Sequencer.single (Sequencer.multiply 18))
    0 1 18 :=
  (strips_cover Sequencer.single (by decide) _ _ (Sequencer.runOf_run _ _)
    (Sequencer.runOf_fair _ _) 0 (Sequencer.multiply 18) rfl (by decide) 1 (by decide)).mpr
      ⟨by decide, .inr (.inr (by decide))⟩

/-- **Of seventeen elements, one is never done.** -/
theorem strips_miss_element :
    ¬ ∀ (cfg : HwachaConfig) (x : ℕ → Sequencer × (BitVec 3 → Option SlotLog))
      (i : ℕ → SequencerIn) (t : ℕ) (op : IssueOp) (k : BitVec 3), 0 < cfg.bcnt.toNat →
      (Sequencer.machine cfg).Run x i → Sequencer.Fair x i → (i t).issueop = some op →
      0 < op.vlen.toNat → (x t).1.writes cfg op k = true → Covered x t k op.vlen := by
  intro hall
  have hrun := Sequencer.runOf_run Sequencer.single (Sequencer.multiply 17)
  have hcovered := hall Sequencer.single _ _ 0 (Sequencer.multiply 17) 1 (by decide) hrun
    (Sequencer.runOf_fair _ _) rfl (by decide) (by decide)
  have hrest := (Sequencer.noRest_of_covered (by decide) hrun rfl (by decide) (by decide)
    hcovered).2
  rcases hrest with hle | hzero | hwide
  · exact absurd hle (by decide)
  · exact absurd hzero (by decide)
  · exact absurd hwide (by decide)

end Hwacha

end RiscvSoc
